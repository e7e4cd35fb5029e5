import DiagramRepair.Proofs.Analysis.Identifiers

namespace DiagramRepair.IdSet

variable {s s' : IdSet} {token id id' : Text}

theorem foldl_keepLonger_eq_none_iff {ids : List Text} {best? : Option Text} :
    ids.foldl keepLonger best? = none ↔ ids = [] ∧ best? = none := by
  induction ids generalizing best? with
  | nil => simp
  | cons id ids ih =>
    have hsome : keepLonger best? id ≠ none := by
      rcases keepLonger_cases best? id with hkeep | hkeep
      · simp [hkeep]
      · cases best? with
        | none => simp [keepLonger]
        | some best => simp [hkeep]
    rw [List.foldl_cons, ih]
    simp [hsome]

theorem longestPrefix?_eq_none_iff :
    s.longestPrefix? token = none ↔ ∀ id ∈ s.ids, id <+: token → id = token := by
  simp only [longestPrefix?, foldl_keepLonger_eq_none_iff, and_true, List.filter_eq_nil_iff,
    isProperPrefix_iff, not_and, ne_eq, Classical.not_not]

theorem IsLongestPrefix.unique (h : s.IsLongestPrefix token id)
    (h' : s.IsLongestPrefix token id') : id = id' := by
  have hle := h'.longest id h.mem h.isPrefix h.ne
  have hge := h.longest id' h'.mem h'.isPrefix h'.ne
  exact (List.prefix_of_prefix_length_le h.isPrefix h'.isPrefix hle).eq_of_length_le hge

theorem IsLongestPrefix.congr (hids : ∀ id, id ∈ s.ids ↔ id ∈ s'.ids)
    (h : s.IsLongestPrefix token id) : s'.IsLongestPrefix token id where
  mem := (hids id).mp h.mem
  isPrefix := h.isPrefix
  ne := h.ne
  longest id' hid' := h.longest id' ((hids id').mpr hid')

/-- What has no longer one beside it is found, as something is found and nothing else can be. -/
theorem longestPrefix?_eq_some_iff :
    s.longestPrefix? token = some id ↔ s.IsLongestPrefix token id := by
  refine ⟨isLongestPrefix_of_longestPrefix?, fun h ↦ ?_⟩
  cases hfound : s.longestPrefix? token with
  | none => exact absurd (longestPrefix?_eq_none_iff.mp hfound id h.mem h.isPrefix) h.ne
  | some id' => rw [h.unique (isLongestPrefix_of_longestPrefix? hfound)]

theorem longestPrefix?_congr (hids : ∀ id, id ∈ s.ids ↔ id ∈ s'.ids) (token : Text) :
    s.longestPrefix? token = s'.longestPrefix? token := by
  refine Option.ext fun id ↦ ?_
  rw [longestPrefix?_eq_some_iff, longestPrefix?_eq_some_iff]
  exact ⟨.congr hids, .congr fun id ↦ (hids id).symm⟩

/-- Nothing is found exactly if no identifier is a proper start of the token. Otherwise the one that
is found is the only one that no other such identifier exceeds in length, and whatever lists the
same identifiers, in another order or more than once, gives the same. -/
theorem longestPrefix_of_same_ids (hids : ∀ id, id ∈ s.ids ↔ id ∈ s'.ids) (token : Text) :
    (s.longestPrefix? token = none ↔ ∀ id ∈ s.ids, id <+: token → id = token) ∧
      (∀ id, s.longestPrefix? token = some id ↔ s.IsLongestPrefix token id) ∧
      (∀ id id', s.IsLongestPrefix token id → s.IsLongestPrefix token id' → id = id') ∧
      s'.longestPrefix? token = s.longestPrefix? token :=
  ⟨longestPrefix?_eq_none_iff, fun _ ↦ longestPrefix?_eq_some_iff, fun _ _ h h' ↦ h.unique h',
    (longestPrefix?_congr hids token).symm⟩

/-- Three starts of one token, in two orders, and the whole token among the identifiers. -/
theorem longestPrefix_of_same_ids_nested :
    let s : IdSet := ⟨["Sub", "Subdivide", "SubdivideX", "S", "B"].map Text.of, []⟩
    let s' : IdSet := ⟨["B", "S", "SubdivideX", "Subdivide", "Sub", "S"].map Text.of, []⟩
    (∀ id, id ∈ s.ids ↔ id ∈ s'.ids) ∧
      s.IsLongestPrefix (Text.of "SubdivideX") (Text.of "Subdivide") ∧
      s.longestPrefix? (Text.of "SubdivideX") = some (Text.of "Subdivide") ∧
      s'.longestPrefix? (Text.of "SubdivideX") = some (Text.of "Subdivide") ∧
      s.longestPrefix? (Text.of "B") = none ∧ s'.longestPrefix? (Text.of "B") = none := by
  intro s s'
  have hids : ∀ id, id ∈ s.ids ↔ id ∈ s'.ids := by
    intro id
    simp only [s, s', List.map_cons, List.map_nil, List.mem_cons, List.not_mem_nil, or_false]
    grind
  obtain ⟨-, hsome, -, hsame⟩ := longestPrefix_of_same_ids hids (Text.of "SubdivideX")
  obtain ⟨hnone, -, -, hsame'⟩ := longestPrefix_of_same_ids hids (Text.of "B")
  have hfound : s.longestPrefix? (Text.of "SubdivideX") = some (Text.of "Subdivide") := by decide
  have hmissing : s.longestPrefix? (Text.of "B") = none := hnone.mpr (by decide)
  exact ⟨hids, (hsome _).mp hfound, hfound, hsame.trans hfound, hmissing, hsame'.trans hmissing⟩

end DiagramRepair.IdSet
