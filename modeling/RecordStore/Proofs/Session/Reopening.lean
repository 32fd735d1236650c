import RecordStore.Proofs.Session.Places

/-!
# Opening again

A file that was opened is opened at the same place again, whatever was written to its database in
between, and no file changes by that. A path that denotes a database in memory goes on to do so.
-/

namespace RecordStore

namespace FileTree

variable {tree tree' : FileTree} {place : Place} {path : String} {node : Node}

/-- A path that leads somewhere leads there also after a node was set that stands where there is no
directory. -/
theorem follow_set {start found : Place} {steps : List String}
    (hne : tree.node? place ≠ some .directory) (h : tree.follow start steps = .ok found) :
    (tree.set place node).follow start steps = .ok found := by
  induction steps generalizing start with
  | nil => exact h
  | cons step rest ih =>
    unfold follow at h ⊢
    split at h
    next hdirectory =>
      have hstart : start ≠ place := fun heq => hne (heq ▸ hdirectory)
      rw [node?_set_of_ne hstart, hdirectory]
      exact ih h
    · cases h
    · cases h

theorem node?_start (tree : FileTree) (path : String) :
    tree.node? (Route.ofString path).start = some .directory := by
  show tree.node? (if "/".toList.isPrefixOf path.toList then ["/"] else []) = some .directory
  split <;> rfl

/-- Something is found at the end of a path also after a node was set that is no directory. -/
theorem find_set {route : Route} {found : Place × Node} (hroute : route.toDirectory = false)
    (hne : tree.node? place ≠ some .directory) (h : tree.find route = .ok found) :
    ∃ found', (tree.set place node).find route = .ok found' := by
  obtain ⟨last, hfollow, hnode⟩ := bind_eq_ok.mp h
  have hthere : ∃ node', (tree.set place node).node? last = some node' := by
    by_cases hlast : last = place
    · rw [hlast]
      exact ⟨node, node?_set_self hne⟩
    · rw [node?_set_of_ne hlast]
      cases htree : tree.node? last with
      | none => simp [htree] at hnode
      | some node' => exact ⟨node', rfl⟩
  obtain ⟨node', hnode'⟩ := hthere
  simp only [find, follow_set hne hfollow, ok_bind, hnode', hroute, Bool.false_eq_true, if_false]
  cases node' <;> exact ⟨_, rfl⟩

/-- Where directories were made, the steps lead to a directory. -/
theorem follow_of_makeDirectories {steps : List String} {start : Place}
    (hstart : tree.node? start = some .directory) (h : tree.makeDirectories start steps = .ok tree') :
    (∀ other, tree.node? other = some .directory → tree'.node? other = some .directory) ∧
      ∃ last, tree'.follow start steps = .ok last ∧ tree'.node? last = some .directory := by
  induction steps generalizing tree start with
  | nil =>
    cases h
    exact ⟨fun _ hother => hother, start, rfl, hstart⟩
  | cons step rest ih =>
    have hstep {middle : FileTree}
        (hkept : ∀ other, tree.node? other = some .directory → middle.node? other = some .directory)
        (hnext : middle.node? (start.step step) = some .directory)
        (hrest : middle.makeDirectories (start.step step) rest = .ok tree') :
        (∀ other, tree.node? other = some .directory → tree'.node? other = some .directory) ∧
          ∃ last, tree'.follow start (step :: rest) = .ok last ∧
            tree'.node? last = some .directory := by
      obtain ⟨hall, last, hfollow, hlast⟩ := ih hnext hrest
      refine ⟨fun other hother => hall other (hkept other hother), last, ?_, hlast⟩
      rwa [follow, hall start (hkept start hstart)]
    simp only [makeDirectories] at h
    split at h
    next hnext => exact hstep (fun _ hother => hother) hnext h
    · cases h
    next hnone =>
      have hne : tree.node? (start.step step) ≠ some .directory := by simp [hnone]
      refine hstep (fun other hother => ?_) (node?_set_self hne) h
      have hother' : other ≠ start.step step := fun heq => hne (heq ▸ hother)
      rw [node?_set_of_ne hother', hother]

/-- Where something holds the end of a path, nothing is made. -/
theorem makeParent_of_find
    (hz : (Route.ofString path).parent.steps.any (·.toList.contains '\x00') = false)
    {found : Place × Node} (h : tree.find (Route.ofString path).parent = .ok found) :
    tree.makeParent path = .ok tree := by
  simp only [makeParent, hz, Bool.false_eq_true, if_false, h]

/-- Something holds the end of the path afterwards. -/
theorem makeParent_eq_ok (h : tree.makeParent path = .ok tree') :
    (Route.ofString path).parent.steps.any (·.toList.contains '\x00') = false ∧
      ∃ found, tree'.find (Route.ofString path).parent = .ok found := by
  unfold makeParent at h
  simp only at h
  split at h
  · cases h
  next hz =>
    rw [Bool.not_eq_true] at hz
    refine ⟨hz, ?_⟩
    split at h
    next found hfind =>
      cases h
      exact ⟨found, hfind⟩
    next =>
      obtain ⟨_, last, hfollow, hlast⟩ := follow_of_makeDirectories (node?_start tree path) h
      have hsteps : tree'.follow (Route.ofString path).parent.start
          (Route.ofString path).parent.steps = .ok last := hfollow
      exact ⟨(last, .directory), by simp only [find, hsteps, ok_bind, hlast]⟩

/-- A directory that was made need not be made again, not even after a node was set that is none. -/
theorem makeParent_set (h : tree.makeParent path = .ok tree')
    (hne : tree'.node? place ≠ some .directory) :
    (tree'.set place node).makeParent path = .ok (tree'.set place node) := by
  obtain ⟨hz, found, hfind⟩ := makeParent_eq_ok h
  obtain ⟨found', hfind'⟩ := find_set rfl hne hfind
  exact makeParent_of_find hz hfind'

/-- A path leads to a database in a file, which can be opened there. -/
structure LeadsTo (tree : FileTree) (path : String) (place : Place) (db : Database) : Prop where
  parent : tree.makeParent path = .ok tree
  text : path.toList.contains '\x00' = false
  follow : ∃ name, Target.ofPath path = .ok (.file name) ∧
    tree.follow (Route.ofString name).start (Route.ofString name).steps = .ok place
  node : tree.node? place = some (.database db)

variable {db : Database} {planner : Planner}

/-- A path leads to the database that was opened at its end. -/
theorem leadsTo_of_open {made : FileTree} (hparent : tree.makeParent path = .ok made)
    (hopen : made.openPath planner path = .ok (tree', some place)) :
    ∃ db, tree'.LeadsTo path place db := by
  obtain ⟨hz, ⟨_, _, hnone⟩ | ⟨name, found, htarget, hopened, heq⟩⟩ := openPath_eq_ok.mp hopen
  · cases hnone
  · cases heq
    obtain ⟨hfollow, ⟨⟨db, hnode⟩, rfl⟩ | ⟨hnode, rfl⟩⟩ := openDatabase_eq_ok hopened
    · obtain ⟨hsteps, found, hfind⟩ := makeParent_eq_ok hparent
      exact ⟨db, makeParent_of_find hsteps hfind, hz, ⟨name, htarget, hfollow⟩, hnode⟩
    · have hne : made.node? place ≠ some .directory := by
        rcases hnode with hnode | hnode <;> simp [hnode]
      exact ⟨.empty planner, makeParent_set hparent hne, hz, ⟨name, htarget, follow_set hne hfollow⟩,
        node?_set_self hne⟩

/-- Opening again what is open changes nothing. -/
theorem LeadsTo.reopen (h : tree.LeadsTo path place db) :
    tree.openPath planner path = .ok (tree, some place) := by
  obtain ⟨name, htarget, hfollow⟩ := h.follow
  refine openPath_eq_ok.mpr ⟨h.text, .inr ⟨name, place, htarget, ?_, rfl⟩⟩
  simp only [openDatabase, hfollow, h.node]

/-- A path goes on to lead to a database whatever is written to it. -/
theorem LeadsTo.set (h : tree.LeadsTo path place db) (db' : Database) :
    (tree.set place (.database db')).LeadsTo path place db' := by
  have hne : tree.node? place ≠ some .directory := by
    rw [h.node]
    exact nofun
  obtain ⟨name, htarget, hfollow⟩ := h.follow
  exact ⟨makeParent_set h.parent hne, h.text, ⟨name, htarget, follow_set hne hfollow⟩,
    node?_set_self hne⟩

/-- A path denotes a database in memory for every connection. -/
structure DenotesOwn (tree : FileTree) (path : String) : Prop where
  parent : tree.makeParent path = .ok tree
  text : path.toList.contains '\x00' = false
  target : Target.ofPath path = .ok .own

theorem DenotesOwn.reopen (h : tree.DenotesOwn path) :
    tree.openPath planner path = .ok (tree, none) :=
  openPath_eq_ok.mpr ⟨h.text, .inl ⟨h.target, rfl, rfl⟩⟩

theorem denotesOwn_of_open {made : FileTree} (hparent : tree.makeParent path = .ok made)
    (hopen : made.openPath planner path = .ok (tree', none)) :
    tree' = made ∧ made.DenotesOwn path := by
  obtain ⟨hz, ⟨htarget, rfl, _⟩ | ⟨_, _, _, _, hnone⟩⟩ := openPath_eq_ok.mp hopen
  · obtain ⟨hsteps, found, hfind⟩ := makeParent_eq_ok hparent
    exact ⟨rfl, makeParent_of_find hsteps hfind, hz, htarget⟩
  · cases hnone

/-- Whatever was opened is opened again. -/
theorem reopen_of_open {made : FileTree} {found : Option Place}
    (hparent : tree.makeParent path = .ok made)
    (hopen : made.openPath planner path = .ok (tree', found)) :
    tree'.openPath planner path = .ok (tree', found) := by
  cases found with
  | some place =>
    obtain ⟨_, hleads⟩ := leadsTo_of_open hparent hopen
    exact hleads.reopen
  | none =>
    obtain ⟨rfl, hown⟩ := denotesOwn_of_open hparent hopen
    exact hown.reopen

end FileTree

end RecordStore
