import RecordStore.Proofs.Query.Placeholders
import RecordStore.Proofs.Database.Limits

/-!
# Demands and parameters

A statement asks for as many parameters as its text has. A window adds two parameters to a selection
and nothing else, so that a selection that fits without a window fits with one if there is room for
two more.
-/

namespace RecordStore

open Piece

namespace Clause

theorem count_operandDemands (held : Nat) (operands : List SqlValue) :
    (operandDemands held operands).count .parameter = operands.length := by
  match operands with
  | [] => rfl
  | [_] => rfl
  | first :: second :: rest =>
    show (_ ++ (second :: rest).map fun _ => Demand.parameter).count .parameter = _
    rw [List.count_append, count_values]
    exact Nat.add_comm 1 _

theorem granted_operandDemands {held : Nat} (hheld : held + 6 ≤ symbolLimit)
    (operands : List SqlValue) : ∀ d ∈ operandDemands held operands, d.Granted := by
  have hsymbols {n : Nat} (hn : n ≤ held + 6) : (Demand.symbols n).Granted := Nat.le_trans hn hheld
  match operands with
  | [] => exact List.forall_mem_singleton.mpr (hsymbols (by omega))
  | [_] =>
    intro d hd
    simp only [operandDemands, List.mem_cons, List.not_mem_nil, or_false] at hd
    rcases hd with rfl | rfl | rfl
    · exact hsymbols (by omega)
    · trivial
    · exact hsymbols (by omega)
  | first :: second :: rest =>
    have hvalues : ∀ d ∈ (second :: rest).map fun _ => Demand.parameter, d.Granted :=
      granted_values (second :: rest)
    intro d hd
    rcases List.mem_append.mp hd with hd | hd
    · simp only [List.mem_cons, List.not_mem_nil, or_false] at hd
      rcases hd with rfl | rfl | rfl
      · exact hsymbols (by omega)
      · trivial
      · exact hsymbols (by omega)
    · exact hvalues d hd

theorem count_group (held : Nat) (parts : List Demand) :
    (.symbols (held + 1) :: (parts ++ [.symbols (held + 3)])).count .parameter =
      parts.count .parameter := by
  simp

mutual

/-- A condition asks for as many parameters as it has, wherever it stands. -/
theorem count_demands : ∀ (held : Nat) (clause : Clause),
    (clause.demands held).count .parameter = (params clause.pieces).length
  | _, .compare .. | _, .isNull _ | _, .isNotNull _ | _, .constant true | _, .constant false => rfl
  | held, .oneOf column operands => by
    rw [demands, count_operandDemands, params_oneOf]
  | held, .noneOf column operands => by
    rw [demands, count_operandDemands, params_noneOf]
  | held, .all parts => by
    rw [demands, params_all, count_group, count_partDemands]
  | held, .any parts => by
    rw [demands, params_any, count_group, count_partDemands]

theorem count_partDemands : ∀ (held : Nat) (front : Option Nat) (parts : List Clause),
    (partDemands held front parts).count .parameter =
      (parts.flatMap fun part => params part.pieces).length
  | _, _, [] => rfl
  | held, none, part :: rest => by
    rw [partDemands, List.count_append, count_demands, count_partDemands, List.flatMap_cons,
      List.length_append]
  | held, some front, part :: rest => by
    have hlevel : (.levels (chain front (levels part)) : Demand) ≠ .parameter := nofun
    rw [partDemands, List.count_append, List.count_cons_of_ne hlevel, count_demands,
      count_partDemands, List.flatMap_cons, List.length_append]

end

/-- A test whether a column has one of several values fits if they are not more than the parameters
that there may be. -/
theorem fit_oneOf {held : Nat} (hheld : held + 6 ≤ symbolLimit) (column : String)
    (operands : List SqlValue) :
    Fit ((oneOf column operands).demands held) ↔ operands.length ≤ parameterLimit := by
  have hcount := count_demands held (oneOf column operands)
  rw [params_oneOf] at hcount
  rw [← hcount]
  exact ⟨Fit.parameters, fun h => ⟨h, granted_operandDemands hheld operands⟩⟩

end Clause

/-- A condition behind its word, if there is one. -/
theorem count_whereDemands (held : Nat) (condition : Option Clause) :
    (whereDemands held condition).count .parameter = (params (whereLine condition)).length := by
  cases condition with
  | none => rfl
  | some clause => exact clause.count_demands held

namespace Select

theorem count_demands (s : Select) : s.demands.count .parameter = (params s.pieces).length := by
  have hfront : params (front s.table s.columns) = [] := by
    have hselect : params [.ofString "SELECT "] = [] := rfl
    have hnames : params (commas (s.columns.map fun name => [.name name])) = [] :=
      params_commas_of_plain (fun _ => rfl) _
    rw [front, ← List.singleton_append, params_append, params_append, hselect, hnames]
    rfl
  have hwindow : (windowDemands s.window).count .parameter =
      (params (windowLine s.window)).length := by
    cases s.window <;> rfl
  rw [demands, pieces_eq, params_append, params_append, params_append, hfront,
    OrderTerm.params_orderLine, List.count_append, count_whereDemands, hwindow, List.nil_append,
    List.nil_append, List.length_append]

/-- A selection fits with a window if it fits without one and has room for two parameters. -/
theorem fits_window_iff {s : Select} (hnone : s.window = none) (hfits : s.Fits) (window : RowWindow) :
    Fits { s with window := some window } ↔ (params s.pieces).length + 2 ≤ parameterLimit := by
  have hcount := s.count_demands
  have htext := hfits.text
  rw [demands, hnone, windowDemands, List.append_nil] at hcount htext
  have hwindow : Fit (demands { s with window := some window }) ↔
      (params s.pieces).length + 2 ≤ parameterLimit := by
    show Fit (whereDemands 5 s.condition ++ [.parameter, .parameter]) ↔ _
    rw [Fit.append_iff, hcount]
    exact and_iff_left ⟨htext.granted, by decide⟩
  exact ⟨fun h => hwindow.mp h.text, fun h => ⟨hwindow.mpr h, hfits.columns, hfits.order⟩⟩

end Select

end RecordStore
