import DiagramRepair.Proofs.Rule.Note
import DiagramRepair.Repair.Context

namespace DiagramRepair.NoteNames

variable {ids avoid nodes given : List Text} {names names' : NoteNames}
  {node name name' : Text} {counter counter' : Nat}

/-- The tries from one name on: while the name is taken, the counter goes up by one and the next
name is the one with its number. -/
inductive Tries (node : Text) (avoid : List Text) : Nat → Text → Nat → Text → Prop
  | free {counter : Nat} {name : Text} (h : name ∉ avoid) :
    Tries node avoid counter name counter name
  | taken {counter counter' : Nat} {name name' : Text} (h : name ∈ avoid)
    (hrest : Tries node avoid (counter + 1) (numbered node (counter + 1)) counter' name') :
    Tries node avoid counter name counter' name'

namespace Tries

theorem not_mem (h : Tries node avoid counter name counter' name') : name' ∉ avoid := by
  induction h with
  | free h => exact h
  | taken _ _ ih => exact ih

theorem counter_le (h : Tries node avoid counter name counter' name') : counter ≤ counter' := by
  induction h with
  | free => exact Nat.le_refl _
  | taken _ _ ih => omega

/-- Either the first name is free, or the name has the last number that was counted to. -/
theorem name_eq (h : Tries node avoid counter name counter' name') :
    name' = name ∧ counter' = counter ∨ name' = numbered node counter' ∧ counter < counter' := by
  induction h with
  | free => exact .inl ⟨rfl, rfl⟩
  | taken _ hrest ih =>
    have hle := hrest.counter_le
    refine .inr ⟨?_, by omega⟩
    rcases ih with ⟨hname, hcounter⟩ | ⟨hname, -⟩
    · rw [hname, hcounter]
    · exact hname

end Tries

/-- A bounded search that finds a free name finds the one that the tries come to. -/
theorem tries_search (fuel : Nat) (h : (search node avoid fuel counter name).1 ∉ avoid) :
    Tries node avoid counter name (search node avoid fuel counter name).2
      (search node avoid fuel counter name).1 := by
  induction fuel generalizing counter name with
  | zero => exact .free h
  | succ fuel ih =>
    rw [search] at h ⊢
    split at h
    · rename_i hmem
      rw [if_pos hmem]
      exact .taken (List.contains_iff_mem.mp hmem) (ih h)
    · rename_i hmem
      rw [if_neg hmem]
      exact .free h

/-- What a call does. Its tries come to an end, at a name that is neither an identifier nor taken;
it is `Note` and the node, with the count behind it if the count went on; and it is taken from then
on. -/
structure Call (ids : List Text) (names : NoteNames) (node name : Text) (names' : NoteNames) :
    Prop where
  tries : Tries node (names.taken ++ ids) names.counter (Text.of "Note" ++ node) names'.counter name
  not_mem_ids : name ∉ ids
  not_mem_taken : name ∉ names.taken
  name_eq : name = Text.of "Note" ++ node ∧ names'.counter = names.counter ∨
    name = numbered node names'.counter ∧ names.counter < names'.counter
  taken_eq : names'.taken = names.taken ++ [name]

theorem call_next (names : NoteNames) (ids : List Text) (node : Text) :
    Call ids names node (names.next ids node).1 (names.next ids node).2 := by
  have hfree := next_not_mem names ids node
  have htries : Tries node (names.taken ++ ids) names.counter (Text.of "Note" ++ node)
      (names.next ids node).2.counter (names.next ids node).1 :=
    tries_search ((names.taken ++ ids).length + 1) hfree
  rw [List.mem_append, not_or] at hfree
  exact ⟨htries, hfree.2, hfree.1, htries.name_eq, rfl⟩

theorem Call.counter_le (h : Call ids names node name names') : names.counter ≤ names'.counter :=
  h.tries.counter_le

def nextAll (ids : List Text) : NoteNames → List Text → List Text × NoteNames
  | names, [] => ([], names)
  | names, node :: nodes =>
    let (name, names) := names.next ids node
    let (given, names) := nextAll ids names nodes
    (name :: given, names)

inductive Calls (ids : List Text) : NoteNames → List Text → List Text → NoteNames → Prop
  | nil {names : NoteNames} : Calls ids names [] [] names
  | cons {names names₁ names' : NoteNames} {node name : Text} {nodes given : List Text}
    (h : Call ids names node name names₁) (hrest : Calls ids names₁ nodes given names') :
    Calls ids names (node :: nodes) (name :: given) names'

theorem calls_nextAll (names : NoteNames) (ids nodes : List Text) :
    Calls ids names nodes (nextAll ids names nodes).1 (nextAll ids names nodes).2 := by
  induction nodes generalizing names with
  | nil => exact .nil
  | cons node nodes ih => exact .cons (call_next names ids node) (ih _)

namespace Calls

theorem counter_le (h : Calls ids names nodes given names') : names.counter ≤ names'.counter := by
  induction h with
  | nil => exact Nat.le_refl _
  | cons h _ ih => exact Nat.le_trans h.counter_le ih

theorem taken_eq (h : Calls ids names nodes given names') : names'.taken = names.taken ++ given := by
  induction h with
  | nil => simp
  | cons h _ ih => rw [ih, h.taken_eq, List.append_assoc, List.singleton_append]

theorem not_mem (h : Calls ids names nodes given names') (hname : name ∈ given) :
    name ∉ ids ∧ name ∉ names.taken := by
  induction h with
  | nil => simp at hname
  | cons h _ ih =>
    rcases List.mem_cons.mp hname with rfl | hname
    · exact ⟨h.not_mem_ids, h.not_mem_taken⟩
    · obtain ⟨hids, htaken⟩ := ih hname
      rw [h.taken_eq, List.mem_append, not_or] at htaken
      exact ⟨hids, htaken.1⟩

theorem nodup (h : Calls ids names nodes given names') : given.Nodup := by
  induction h with
  | nil => exact List.nodup_nil
  | cons h hrest ih =>
    refine List.nodup_cons.mpr ⟨fun hname ↦ ?_, ih⟩
    -- the name counts as taken by the time the later ones are given
    exact (hrest.not_mem hname).2 (by simp [h.taken_eq])

/-- Numbers are counts that are reached on the way. -/
theorem names_eq (h : Calls ids names nodes given names') :
    List.Forall₂ (fun node name ↦ name = Text.of "Note" ++ node ∨
      ∃ k, names.counter < k ∧ k ≤ names'.counter ∧ name = numbered node k) nodes given := by
  induction h with
  | nil => exact .nil
  | @cons names names₁ names' node name nodes given h hrest ih =>
    have hle := h.counter_le
    refine .cons ?_ (ih.imp fun node name hname ↦ hname.imp_right ?_)
    · rcases h.name_eq with ⟨hname, -⟩ | ⟨hname, hlt⟩
      · exact .inl hname
      · exact .inr ⟨names₁.counter, hlt, hrest.counter_le, hname⟩
    · rintro ⟨k, hlow, hhigh, hname⟩
      exact ⟨k, by omega, hhigh, hname⟩

end Calls

/-- Whatever the state and the nodes, every call comes to an end and never counts back, and the
names are distinct, and neither identifiers of the block nor names that were taken before. Each is
`Note` and its node, with a number that was counted to in between if need be. -/
theorem nextAll_distinct (ctx : RepairContext) (names : NoteNames) (nodes : List Text) :
    let given := (nextAll ctx.ids.ids names nodes).1
    let names' := (nextAll ctx.ids.ids names nodes).2
    Calls ctx.ids.ids names nodes given names' ∧
      given.Nodup ∧
      (∀ name ∈ given, ctx.ids.mentions name = false ∧ name ∉ names.taken) ∧
      names'.taken = names.taken ++ given ∧
      names.counter ≤ names'.counter ∧
      List.Forall₂ (fun node name ↦ name = Text.of "Note" ++ node ∨
        ∃ k, names.counter < k ∧ k ≤ names'.counter ∧ name = numbered node k) nodes given := by
  intro given names'
  have hcalls : Calls ctx.ids.ids names nodes given names' := calls_nextAll names ctx.ids.ids nodes
  refine ⟨hcalls, hcalls.nodup, fun name hname ↦ ?_, hcalls.taken_eq, hcalls.counter_le,
    hcalls.names_eq⟩
  obtain ⟨hids, htaken⟩ := hcalls.not_mem hname
  exact ⟨by simpa [IdSet.mentions] using hids, htaken⟩

/-- The numbered name of one node is the first choice of another. -/
example : (nextAll [Text.of "NoteA"] {} (["A", "A_1", "A"].map Text.of)).1 =
    ["NoteA_1", "NoteA_1_2", "NoteA_3"].map Text.of := by
  decide +kernel

end DiagramRepair.NoteNames
