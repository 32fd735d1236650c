import RecordStore.Query.Filter
import RecordStore.Query.Sort

/-!
# Listings

What a listing asks for: a filter, a sort order, and a page. Pages count from one, and they apply
only when both the page and its size are given.
-/

namespace RecordStore

structure Window where
  offset : Nat
  limit : Nat
deriving DecidableEq

/-- The filter, order and page of a listing, as given. -/
structure Listing where
  filter : Option Json
  sort : Option Json
  page : Option Nat
  pageSize : Option Nat

namespace Listing

def everything : Listing := ⟨none, none, none, none⟩

def filterTree (listing : Listing) : Except QueryError (Option Filter) :=
  match listing.filter with
  | none => .ok none
  | some filter => (Filter.ofJson filter).map some

/-- The keys of the order. Nothing, `null` and the empty text mean no order. -/
def sortKeys (listing : Listing) : Except QueryError (List SortKey) :=
  match listing.sort with
  | none | some .null => .ok []
  | some sort => if sort = .string "" then .ok [] else SortKey.ofJson sort

def window (listing : Listing) : Except QueryError (Option Window) :=
  match listing.page, listing.pageSize with
  | some page, some size =>
    if page = 0 then .error .pageZero
    else if size = 0 then .error .pageSizeZero
    else .ok (some ⟨min ((page - 1) * size) maxWord, size⟩)
  | _, _ => .ok none

end Listing

end RecordStore
