import RecordStore.Proofs.Database.Names
import RecordStore.Session.Files

/-!
# Places of a file tree

A node that is set at a place is found there, and the nodes at all other places stay as they are. A
tree is proper if the tables of each of its databases have different names. Making directories and
opening databases keep a tree proper.
-/

namespace RecordStore

/-- A path that is no URI denotes the file of its name. -/
theorem Target.ofPath_of_plain {path : String} (h : Uri.scheme.isPrefixOf path.toList = false) :
    ofPath path = .ok (.file path) := by
  rw [ofPath, if_neg (by rw [h]; exact Bool.false_ne_true)]

namespace FileTree

variable {tree : FileTree} {place other : Place} {node : Node}

/-- A change of the entries that keeps their keys does not change where a key is found. -/
theorem find?_map_of_key {α : Type} {key : α → Place} {f : α → α} (hf : ∀ a, key (f a) = key a)
    (l : List α) (other : Place) :
    (l.map f).find? (key · = other) = (l.find? (key · = other)).map f := by
  rw [List.find?_map]
  simp only [Function.comp_def, hf]

/-- What is recorded for a place after a node was set. -/
theorem find?_set : ((tree.set place node).entries.find? (·.1 = other)).map (·.2) =
    if other = place then some node else (tree.entries.find? (·.1 = other)).map (·.2) := by
  unfold set
  split
  next hany =>
    rw [find?_map_of_key]
    rotate_left
    · rintro ⟨key, value⟩
      dsimp only
      split <;> rfl
    cases hfind : tree.entries.find? (·.1 = other) with
    | none =>
      have hne : other ≠ place := by
        rintro rfl
        obtain ⟨entry, hmem, heq⟩ := List.any_eq_true.mp hany
        exact List.find?_eq_none.mp hfind entry hmem heq
      rw [if_neg hne]
      rfl
    | some entry =>
      have hother : entry.1 = other := by simpa using List.find?_some hfind
      by_cases h : other = place
      · simp [h, hother]
      · simp [h, hother]
  next hnone =>
    rw [List.find?_append]
    by_cases h : other = place
    · subst h
      have hfind : tree.entries.find? (·.1 = other) = none := by
        rw [List.find?_eq_none]
        exact fun entry hmem heq => hnone (List.any_eq_true.mpr ⟨entry, hmem, heq⟩)
      simp [hfind]
    · simp [h, Ne.symm h]

/-- Of two nodes that are set at a place one after another, the second stays. -/
theorem set_set (node' : Node) : (tree.set place node).set place node' = tree.set place node' := by
  by_cases hany : tree.entries.any (·.1 = place)
  · simp only [set, if_pos hany]
    rw [if_pos]
    · rw [List.map_map]
      refine congrArg FileTree.mk (List.map_congr_left fun entry _ => ?_)
      by_cases hentry : entry.1 = place
      · simp [hentry]
      · simp [hentry]
    · obtain ⟨entry, hmem, hentry⟩ := List.any_eq_true.mp hany
      rw [decide_eq_true_eq] at hentry
      exact List.any_eq_true.mpr ⟨_, List.mem_map_of_mem hmem, by simp [hentry]⟩
  · have hlast : (tree.entries ++ [(place, node)]).any (·.1 = place) := by simp
    simp only [set, if_neg hany, if_pos hlast, List.map_append]
    refine congrArg FileTree.mk ((congrArg (· ++ _) ?_).trans (congrArg (tree.entries ++ ·) ?_))
    · refine (List.map_congr_left fun entry hmem => ?_).trans (List.map_id _)
      have hentry : entry.1 ≠ place := fun heq =>
        hany (List.any_eq_true.mpr ⟨entry, hmem, decide_eq_true heq⟩)
      exact if_neg hentry
    · simp

theorem node?_set_of_ne (h : other ≠ place) :
    (tree.set place node).node? other = tree.node? other := by
  unfold node?
  rw [find?_set, if_neg h]

/-- A node is found where it was set, unless a directory cannot go from there. -/
theorem node?_set_self (h : tree.node? place ≠ some .directory) :
    (tree.set place node).node? place = some node := by
  unfold node? at h ⊢
  split at h
  · exact absurd rfl h
  next htop => rw [if_neg htop, find?_set, if_pos rfl]

/-- Whatever is found after a node was set was there before, or is the node. -/
theorem node?_set_eq_some {found : Node} (h : (tree.set place node).node? other = some found) :
    tree.node? other = some found ∨ other = place ∧ found = node := by
  by_cases ho : other = place
  · unfold node? at h ⊢
    split at h
    next htop => exact .inl (by rw [if_pos htop, h])
    next htop =>
      rw [find?_set, if_pos ho] at h
      exact .inr ⟨ho, (Option.some.inj h).symm⟩
  · rw [node?_set_of_ne ho] at h
    exact .inl h

/-- Setting a node where it stands changes nothing. -/
theorem node?_set_same (h : tree.node? place = some node) (other : Place) :
    (tree.set place node).node? other = tree.node? other := by
  by_cases ho : other = place
  · subst ho
    by_cases hd : tree.node? other = some .directory
    · unfold node? at h hd ⊢
      split at hd
      next htop => rw [if_pos htop, if_pos htop]
      next htop =>
        rw [if_neg htop] at h
        rw [if_neg htop, if_neg htop, find?_set, if_pos rfl, h]
    · rw [node?_set_self hd, h]
  · exact node?_set_of_ne ho

/-- The tables of each database have different names. -/
def Proper (tree : FileTree) : Prop :=
  ∀ place db, tree.node? place = some (.database db) → db.DistinctNames

theorem Proper.set (h : tree.Proper) (hn : ∀ db, node = .database db → db.DistinctNames) :
    (tree.set place node).Proper := by
  intro other db hother
  rcases node?_set_eq_some hother with hother | ⟨_, hdb⟩
  · exact h other db hother
  · exact hn db hdb.symm

theorem Proper.makeDirectories {steps : List String} {tree' : FileTree} (h : tree.Proper)
    (hmake : tree.makeDirectories place steps = .ok tree') : tree'.Proper := by
  induction steps generalizing tree place with
  | nil =>
    cases hmake
    exact h
  | cons step rest ih =>
    simp only [FileTree.makeDirectories] at hmake
    split at hmake
    · exact ih h hmake
    · cases hmake
    · have hnext : (tree.set (place.step step) .directory).Proper := h.set nofun
      exact ih hnext hmake

theorem Proper.makeParent {path : String} {tree' : FileTree} (h : tree.Proper)
    (hmake : tree.makeParent path = .ok tree') : tree'.Proper := by
  unfold FileTree.makeParent at hmake
  simp only at hmake
  split at hmake
  · cases hmake
  · split at hmake
    · cases hmake
      exact h
    · exact h.makeDirectories hmake

/-- What an opening found out about the name and the place. -/
theorem openDatabase_eq_ok {planner : Planner} {path name : String} {tree' : FileTree}
    (h : tree.openDatabase planner path name = .ok (tree', place)) :
    tree.follow (Route.ofString name).start (Route.ofString name).steps = .ok place ∧
      ((∃ db, tree.node? place = some (.database db)) ∧ tree' = tree ∨
        (tree.node? place = some (.text "") ∨ tree.node? place = none) ∧
          tree' = tree.set place (.database (.empty planner))) := by
  unfold openDatabase at h
  simp only at h
  split at h
  · cases h
  next found hfollow =>
    split at h
    next db hnode =>
      cases h
      exact ⟨hfollow, .inl ⟨⟨db, hnode⟩, rfl⟩⟩
    next hnode =>
      cases h
      exact ⟨hfollow, .inr ⟨.inl hnode, rfl⟩⟩
    next hnode =>
      cases h
      exact ⟨hfollow, .inr ⟨.inr hnode, rfl⟩⟩
    · cases h
    · cases h

/-- What was opened: the database in a file, or no file at all. -/
theorem openPath_eq_ok {planner : Planner} {path : String} {tree' : FileTree}
    {found : Option Place} :
    tree.openPath planner path = .ok (tree', found) ↔ path.toList.contains '\x00' = false ∧
      (Target.ofPath path = .ok .own ∧ tree' = tree ∧ found = none ∨ ∃ name place,
        Target.ofPath path = .ok (.file name) ∧
          tree.openDatabase planner path name = .ok (tree', place) ∧
          found = some place) := by
  unfold openPath
  split
  next hz =>
    refine iff_of_false (fun h => ?_) fun h => Bool.false_ne_true (h.1.symm.trans hz)
    cases h
  next hz =>
    simp only [Bool.not_eq_true] at hz
    rw [bind_eq_ok, and_iff_right hz]
    constructor
    · rintro ⟨target, htarget, h⟩
      cases target with
      | own =>
        cases h
        exact .inl ⟨htarget, rfl, rfl⟩
      | file name =>
        obtain ⟨⟨opened, place⟩, hopen, h⟩ := bind_eq_ok.mp h
        cases h
        exact .inr ⟨name, place, htarget, hopen, rfl⟩
    · rintro (⟨htarget, rfl, rfl⟩ | ⟨name, place, htarget, hopen, rfl⟩)
      · exact ⟨.own, htarget, rfl⟩
      · exact ⟨.file name, htarget, bind_eq_ok.mpr ⟨_, hopen, rfl⟩⟩

theorem Proper.openPath {planner : Planner} {path : String} {tree' : FileTree}
    {found : Option Place} (h : tree.Proper)
    (hopen : tree.openPath planner path = .ok (tree', found)) : tree'.Proper := by
  obtain ⟨_, ⟨_, rfl, _⟩ | ⟨name, place, _, hopen, _⟩⟩ := openPath_eq_ok.mp hopen
  · exact h
  · obtain ⟨_, ⟨_, rfl⟩ | ⟨_, rfl⟩⟩ := openDatabase_eq_ok hopen
    · exact h
    · exact h.set fun db hdb => Node.database.inj hdb ▸ Database.empty_distinctNames planner

/-- A tree of text files holds no databases. -/
theorem proper_ofTexts (texts : List (String × String)) : (ofTexts texts).Proper := by
  have hadd (tree : FileTree) (path content : String) (h : tree.Proper) :
      (tree.add path (.text content)).Proper := by
    unfold add
    simp only
    split
    next tree' hmake =>
      have htree' := h.makeDirectories hmake
      apply htree'.set
      intro db hdb
      cases hdb
    · exact h
  have hempty : (⟨[]⟩ : FileTree).Proper := by
    intro place db hnode
    unfold node? at hnode
    split at hnode <;> cases hnode
  exact List.foldlRecOn texts _ hempty fun tree h text _ => hadd tree text.1 text.2 h

end FileTree

end RecordStore
