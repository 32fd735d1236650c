import RecordStore.Proofs.Sql.Reading
import RecordStore.Proofs.Text.Parts
import RecordStore.Sql.Statement

/-!
# The tokens of pieces

Which tokens a sequence of pieces is read as, whatever is read before it. The last token of a
sequence may still be open at its end, as a word or a closing quote is; it is complete if the next
character separates tokens. Sequences are put together along that difference.
-/

namespace RecordStore

/-- The characters that end every token that can end, and that stand for themselves. -/
def isSeparator (c : Char) : Bool := [' ', '(', ')', ','].contains c

namespace Scanner

theorem goesOn_separator {s s' : Scanner} {c : Char} (h : s.settle = some s')
    (hc : isSeparator c = true) : goesOn s.pending c = false := by
  simp only [isSeparator, List.contains_iff_mem, List.mem_cons, List.not_mem_nil, or_false] at hc
  unfold settle at h
  cases hp : s.pending with
  | nothing => rfl
  | word chars => rcases hc with rfl | rfl | rfl | rfl <;> rfl
  | sign d =>
    rcases hc with rfl | rfl | rfl | rfl <;> simp [goesOn, longSigns]
  | quoted quote chars => simp [hp] at h
  | closing quote chars =>
    rcases hc with rfl | rfl | rfl | rfl <;> cases quote <;> rfl

theorem settle_pending {s s' : Scanner} (h : s.settle = some s') : s'.pending = .nothing := by
  unfold settle at h
  cases hp : s.pending with
  | nothing =>
    simp only [hp, Option.some.injEq] at h
    exact h ▸ hp
  | quoted quote chars => simp [hp] at h
  | word _ | sign _ | closing _ _ =>
    simp only [hp, Option.some.injEq] at h
    exact h ▸ rfl

theorem settle_settle {s s' : Scanner} (h : s.settle = some s') : s'.settle = some s' := by
  rw [settle, settle_pending h]

/-- In front of a separator an open token is as good as a complete one. -/
theorem step_separator {s s' : Scanner} {c : Char} (h : s.settle = some s')
    (hc : isSeparator c = true) : s.step c = s'.step c := by
  have hsettled := settle_settle h
  rw [step, step, goesOn_separator h hc, goesOn_separator hsettled hc, hsettled, h]
  rfl

theorem scan_append (s : Scanner) (a b : List Char) :
    s.scan (a ++ b) = (s.scan a).bind (·.scan b) := by
  simp only [scan, List.foldlM_append]
  rfl

theorem scan_cons (s : Scanner) (c : Char) (chars : List Char) :
    s.scan (c :: chars) = (s.step c).bind (·.scan chars) := rfl

/-- The inside of quotes is read as the text before its quote characters were doubled. -/
theorem scan_doubleQuotes (tokens : List Token) (values : List SqlValue) (quote : Quote)
    {chars : List Char} (hz : '\x00' ∉ chars) (before : List Char) :
    scan ⟨tokens, values, .quoted quote before⟩ (doubleQuotes quote.char chars ++ [quote.char]) =
      some ⟨tokens, values, .closing quote (before ++ chars)⟩ := by
  have hq : quote.char ≠ '\x00' := by cases quote <;> decide
  induction chars generalizing before with
  | nil => simp [doubleQuotes, step, goesOn, extend, hq, scan]
  | cons c rest ih =>
    have hc : c ≠ '\x00' := fun h => hz (h ▸ List.mem_cons_self)
    have hrest := ih (fun h => hz (List.mem_cons_of_mem _ h)) (before ++ [c])
    rw [List.append_assoc, List.singleton_append] at hrest
    rw [doubleQuotes]
    split
    next heq =>
      subst heq
      simpa [scan_cons, step, goesOn, extend, hq] using hrest
    next hne => simpa [scan_cons, step, goesOn, extend, hc, hne] using hrest

end Scanner

namespace Piece

/-- A sequence of pieces is read as a list of tokens with nothing left open. -/
def ReadThrough (pieces : List Piece) (ts : List Token) : Prop :=
  ∀ tokens values, Scanner.scan ⟨tokens, params pieces ++ values, .nothing⟩ (pieces.flatMap chars) =
    some ⟨ts.reverse ++ tokens, values, .nothing⟩

/-- A sequence of pieces is read as a list of tokens, the last of which may be open. -/
def ReadAs (pieces : List Piece) (ts : List Token) : Prop :=
  ∀ tokens values, (Scanner.scan ⟨tokens, params pieces ++ values, .nothing⟩
    (pieces.flatMap chars)).bind Scanner.settle = some ⟨ts.reverse ++ tokens, values, .nothing⟩

/-- A sequence of pieces begins with a separator. -/
def StartsApart (pieces : List Piece) : Prop :=
  ∃ c rest, pieces.flatMap chars = c :: rest ∧ isSeparator c = true

variable {ps qs : List Piece} {ts us : List Token}

theorem StartsApart.append (h : StartsApart ps) (qs : List Piece) : StartsApart (ps ++ qs) := by
  obtain ⟨c, rest, hchars, hc⟩ := h
  exact ⟨c, rest ++ qs.flatMap chars, by rw [List.flatMap_append, hchars, List.cons_append], hc⟩

theorem params_append (ps qs : List Piece) : params (ps ++ qs) = params ps ++ params qs :=
  List.filterMap_append

theorem params_joinWith {separator : List Piece} (hs : params separator = [])
    (parts : List (List Piece)) : params (joinWith separator parts) = parts.flatMap params :=
  filterMap_joinWith hs parts

theorem params_commas_of_plain {α : Type} {pieces : α → List Piece}
    (h : ∀ a, params (pieces a) = []) (parts : List α) :
    params (commas (parts.map pieces)) = [] := by
  rw [commas, params_joinWith rfl, List.flatMap_map]
  exact List.flatMap_eq_nil_iff.mpr fun a _ => h a

theorem ReadThrough.readAs (h : ReadThrough ps ts) : ReadAs ps ts := by
  intro tokens values
  rw [h]
  rfl

theorem readThrough_nil : ReadThrough [] [] := fun _ _ => rfl

theorem ReadThrough.append (h : ReadThrough ps ts) (h' : ReadThrough qs us) :
    ReadThrough (ps ++ qs) (ts ++ us) := by
  intro tokens values
  rw [params_append, List.append_assoc, List.flatMap_append, Scanner.scan_append, h,
    Option.bind_some, h', List.reverse_append, List.append_assoc]

theorem ReadThrough.append_readAs (h : ReadThrough ps ts) (h' : ReadAs qs us) :
    ReadAs (ps ++ qs) (ts ++ us) := by
  intro tokens values
  rw [params_append, List.append_assoc, List.flatMap_append, Scanner.scan_append, h,
    Option.bind_some, h', List.reverse_append, List.append_assoc]

/-- What begins with a separator can be read after the open token was completed. -/
theorem ReadAs.scan_append (h : ReadAs ps ts) (hq : StartsApart qs) (tokens : List Token)
    (values : List SqlValue) :
    Scanner.scan ⟨tokens, params (ps ++ qs) ++ values, .nothing⟩ ((ps ++ qs).flatMap chars) =
      Scanner.scan ⟨ts.reverse ++ tokens, params qs ++ values, .nothing⟩ (qs.flatMap chars) := by
  obtain ⟨c, rest, hchars, hc⟩ := hq
  obtain ⟨s, hscan, hsettle⟩ := Option.bind_eq_some_iff.mp (h tokens (params qs ++ values))
  rw [params_append, List.append_assoc, List.flatMap_append, Scanner.scan_append, hscan,
    Option.bind_some, hchars, Scanner.scan_cons, Scanner.scan_cons,
    Scanner.step_separator hsettle hc]

theorem ReadAs.append (h : ReadAs ps ts) (hq : StartsApart qs) (h' : ReadAs qs us) :
    ReadAs (ps ++ qs) (ts ++ us) := by
  intro tokens values
  rw [h.scan_append hq, h', List.reverse_append, List.append_assoc]

theorem ReadAs.append_readThrough (h : ReadAs ps ts) (hq : StartsApart qs)
    (h' : ReadThrough qs us) : ReadThrough (ps ++ qs) (ts ++ us) := by
  intro tokens values
  rw [h.scan_append hq, h', List.reverse_append, List.append_assoc]

theorem readAs_name {name : String} (hz : '\x00' ∉ name.toList) :
    ReadAs [.name name] [.name name] := by
  intro tokens values
  have hchars : [Piece.name name].flatMap chars =
      '"' :: (doubleQuotes Quote.double.char name.toList ++ [Quote.double.char]) :=
    List.append_nil _
  have hopen : Scanner.step ⟨tokens, values, .nothing⟩ '"' =
    some ⟨tokens, values, .quoted .double []⟩ := rfl
  rw [show params [.name name] ++ values = values from rfl, hchars, Scanner.scan_cons, hopen,
    Option.bind_some, Scanner.scan_doubleQuotes tokens values .double hz []]
  simp [Scanner.settle, Token.ofQuoted]

theorem readThrough_param (value : SqlValue) : ReadThrough [.param value] [.value value] :=
  fun _ _ => rfl

/-- Sequences with a separating text between neighbours are read one by one. -/
theorem readAs_joinWith {α : Type} {separator : List Piece} {between : List Token}
    (hs : ReadThrough separator between) (hc : StartsApart separator) {pieces : α → List Piece}
    {tokens : α → List Token} {parts : List α} (h : ∀ a ∈ parts, ReadAs (pieces a) (tokens a)) :
    ReadAs (joinWith separator (parts.map pieces)) (joinWith between (parts.map tokens)) := by
  induction parts with
  | nil => exact readThrough_nil.readAs
  | cons first rest ih =>
    have hfirst := h first List.mem_cons_self
    have hrest := ih fun a ha => h a (List.mem_cons_of_mem _ ha)
    cases rest with
    | nil => exact hfirst
    | cons next more =>
      simp only [List.map_cons, joinWith, List.append_assoc] at hrest ⊢
      exact hfirst.append (hc.append _) (hs.append_readAs hrest)

theorem readAs_commas {α : Type} {pieces : α → List Piece} {tokens : α → List Token}
    {parts : List α} (h : ∀ a ∈ parts, ReadAs (pieces a) (tokens a)) :
    ReadAs (commas (parts.map pieces)) (joinWith [.sign [',']] (parts.map tokens)) :=
  readAs_joinWith (fun _ _ => rfl) ⟨',', [' '], rfl, rfl⟩ h

end Piece

/-- The text and the parameters of pieces give the tokens that the pieces are read as. -/
theorem tokensOf_pieces {pieces : List Piece} {ts : List Token} (h : Piece.ReadAs pieces ts) :
    tokensOf (Piece.text pieces) (Piece.params pieces) = some ts := by
  obtain ⟨s, hscan, hsettle⟩ := Option.bind_eq_some_iff.mp (h [] [])
  rw [List.append_nil] at hscan hsettle
  simp [tokensOf, Piece.text, String.toList_ofList, hscan, hsettle]

end RecordStore
