import DiagramRepair.File.Path
import DiagramRepair.Proofs.Text.Lines

namespace DiagramRepair.Path

variable {t name : Text} {names : List Text} {p q folder : Path}

def IsPart (name : Text) : Prop := name ≠ [] ∧ '/' ∉ name ∧ name ≠ ['.']

def IsName (name : Text) : Prop := IsPart name ∧ name ≠ ['.', '.'] ∧ '\x00' ∉ name

instance (name : Text) : Decidable (IsPart name) := inferInstanceAs (Decidable (_ ∧ _ ∧ _))

instance (name : Text) : Decidable (IsName name) := inferInstanceAs (Decidable (_ ∧ _ ∧ _))

theorem rootOf_of_not_mem (h : '/' ∉ t) : rootOf t = [] := by
  cases t with
  | nil => rfl
  | cons c t =>
    have hslash : (c == '/') = false := beq_eq_false_iff_ne.mpr fun heq ↦ h (by simp [heq])
    rw [rootOf, List.takeWhile_cons, hslash]
    rfl

theorem ofText_part (h : IsPart name) : ofText name = ⟨[], [name]⟩ := by
  obtain ⟨hne, hslash, hdot⟩ := h
  rw [ofText, rootOf_of_not_mem hslash, List.splitOn_eq_singleton hslash]
  simp [hne, hdot]

def Regular (p : Path) : Prop := ∀ name ∈ p.parts, IsPart name

theorem Regular.slash_not_mem_name (h : p.Regular) : '/' ∉ p.name := by
  rw [Path.name]
  cases hlast : p.parts.getLast? with
  | none => simp
  | some name => exact (h name (List.mem_of_getLast? hlast)).2.1

theorem regular_ofText (t : Text) : (ofText t).Regular := by
  intro name h
  obtain ⟨hsplit, hkept⟩ := List.mem_filter.mp h
  have hslash := Text.not_mem_of_mem_splitOn hsplit
  rw [Bool.and_eq_true, bne_iff_ne, bne_iff_ne] at hkept
  exact ⟨hkept.1, hslash, hkept.2⟩

theorem Regular.join (hp : p.Regular) (hq : q.Regular) : (p.join q).Regular := by
  rw [Path.join]
  split
  · exact List.forall_mem_append.mpr ⟨hp, hq⟩
  · exact hq

theorem child_part (h : IsPart name) : p.child name = ⟨p.root, p.parts ++ [name]⟩ := by
  rw [child, ofText_part h, join, if_pos rfl]

theorem hasNull_eq_false : p.hasNull = false ↔ ∀ name ∈ p.parts, '\x00' ∉ name := by
  simp [hasNull]

theorem hasNull_child (hp : p.hasNull = false) (hq : q.hasNull = false) :
    (p.child q.name).hasNull = false := by
  rw [hasNull_eq_false] at hp hq ⊢
  have hname : '\x00' ∉ q.name := by
    rw [Path.name]
    cases hlast : q.parts.getLast? with
    | none => simp
    | some name => exact hq name (List.mem_of_getLast? hlast)
  have hparts : ∀ name ∈ (ofText q.name).parts, '\x00' ∉ name := by
    intro name hmem hnull
    exact hname ((Text.infix_of_mem_splitOn (List.mem_filter.mp hmem).1).subset hnull)
  rw [child, join]
  split
  · exact List.forall_mem_append.mpr ⟨hp, hparts⟩
  · exact hparts

end DiagramRepair.Path
