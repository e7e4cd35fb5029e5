import DiagramRepair.Proofs.Rule.Words

namespace DiagramRepair.IdSet

open Pattern

variable {s : IdSet} {line content id token : Text}

theorem isIdent_group {m : Match} {p : Pattern} {b u r : Text} {gs : Groups}
    (hgs : ∀ name, m.group? name = gs.lookup name)
    (h : (p ++ group "id" ident).Takes b u r gs) : IsIdent (m.group "id") := by
  simp only [takes_append_group, takes_ident] at h
  obtain ⟨v, w, g, g', -, rfl, ⟨hw, -⟩, -⟩ := h
  rw [Match.group, hgs]
  exact hw

theorem isIdent_of_mem_definedIn (h : id ∈ definedIn line) : IsIdent id := by
  rw [definedIn, List.mem_append, List.mem_map, List.mem_map] at h
  rcases h with ⟨m, hm, rfl⟩ | ⟨m, hm, rfl⟩
  · obtain ⟨⟨gs, h, hgs⟩, -⟩ := of_match? (by decide) (Option.mem_toList.mp hm)
    obtain ⟨u, r, h⟩ := exists_takes_of_append (by decide) h
    obtain ⟨u, r, h⟩ := exists_takes_of_append (by decide) h
    obtain ⟨u, r, h⟩ := exists_takes_of_append (by decide) h
    obtain ⟨u, r, h⟩ := exists_takes_of_append (by decide) h
    exact isIdent_group hgs h
  · obtain ⟨gs, h, hgs⟩ := of_mem_findAll (by decide) (by decide) hm
    obtain ⟨u, r, h⟩ := exists_takes_of_append (by decide) h
    obtain ⟨u, r, h⟩ := exists_takes_of_append (by decide) h
    exact isIdent_group hgs h

theorem isIdent_of_mem_targetsIn (h : id ∈ targetsIn line) : IsIdent id := by
  rw [targetsIn, List.mem_map] at h
  obtain ⟨m, hm, rfl⟩ := h
  obtain ⟨gs, h, hgs⟩ := of_mem_findAll (by decide) (by decide) hm
  obtain ⟨u, r, h⟩ := exists_takes_of_append (by decide) h
  exact isIdent_group hgs h

theorem isIdent_of_mem_harvest (h : id ∈ (harvest content).ids) : IsIdent id := by
  simp only [harvest, List.mem_eraseDups, List.mem_append, List.mem_filter, List.mem_flatMap] at h
  rcases h with ⟨⟨line, -, h⟩, -⟩ | ⟨⟨line, -, h⟩, -⟩
  · exact isIdent_of_mem_definedIn h
  · exact isIdent_of_mem_targetsIn h

theorem keepLonger_cases (best? : Option Text) (id : Text) :
    keepLonger best? id = some id ∨ keepLonger best? id = best? := by
  cases best? with
  | none => exact .inl rfl
  | some best =>
    rw [keepLonger]
    split
    · exact .inl rfl
    · exact .inr rfl

theorem mem_of_foldl_keepLonger {ids : List Text} {best? : Option Text}
    (h : ids.foldl keepLonger best? = some id) : id ∈ ids ∨ best? = some id := by
  induction ids generalizing best? with
  | nil => exact .inr h
  | cons id' ids ih =>
    rcases ih h with hmem | hbest
    · exact .inl (by simp [hmem])
    · rcases keepLonger_cases best? id' with hkeep | hkeep
      · rw [hkeep, Option.some.injEq] at hbest
        exact .inl (by simp [hbest])
      · exact .inr (hkeep ▸ hbest)

theorem length_le_of_foldl_keepLonger {ids : List Text} {best? : Option Text}
    (h : ids.foldl keepLonger best? = some id) :
    (∀ id' ∈ ids, id'.length ≤ id.length) ∧ ∀ best ∈ best?, best.length ≤ id.length := by
  induction ids generalizing best? with
  | nil =>
    obtain rfl : best? = some id := h
    simp
  | cons id' ids ih =>
    -- Either of the two is at most as long as the one that is kept, and that is never given up.
    obtain ⟨hrest, hkept⟩ := ih h
    have hboth : id'.length ≤ id.length ∧ ∀ best ∈ best?, best.length ≤ id.length := by
      cases best? with
      | none => exact ⟨hkept id' rfl, by simp⟩
      | some best =>
        have hlonger := hkept (if best.length < id'.length then id' else best) (by
          rw [keepLonger]
          split <;> rfl)
        split at hlonger
        all_goals
          simp only [Option.mem_some_iff, forall_eq']
          omega
    exact ⟨List.forall_mem_cons.mpr ⟨hboth.1, hrest⟩, hboth.2⟩

/-- Of the identifiers that start the token without being all of it, none is longer. -/
structure IsLongestPrefix (s : IdSet) (token id : Text) : Prop where
  mem : id ∈ s.ids
  isPrefix : id <+: token
  ne : id ≠ token
  longest : ∀ id' ∈ s.ids, id' <+: token → id' ≠ token → id'.length ≤ id.length

theorem isProperPrefix_iff {p t : Text} : Text.isProperPrefix p t ↔ p <+: t ∧ p ≠ t := by
  rw [Text.isProperPrefix, Bool.and_eq_true, List.isPrefixOf_iff_prefix, decide_eq_true_eq]
  refine and_congr_right fun hp ↦ ⟨fun hlt heq ↦ ?_, fun hne ↦ ?_⟩
  · exact Nat.lt_irrefl _ (heq ▸ hlt)
  · exact Nat.lt_of_le_of_ne hp.length_le fun heq ↦ hne (hp.eq_of_length heq)

theorem isLongestPrefix_of_longestPrefix? (h : s.longestPrefix? token = some id) :
    s.IsLongestPrefix token id := by
  have hmem : id ∈ s.ids.filter (Text.isProperPrefix · token) :=
    (mem_of_foldl_keepLonger h).resolve_right (by simp)
  obtain ⟨hids, hstarts⟩ := List.mem_filter.mp hmem
  obtain ⟨hstarts, hne⟩ := isProperPrefix_iff.mp hstarts
  refine ⟨hids, hstarts, hne, fun id' hid' hstarts' hne' ↦ ?_⟩
  exact (length_le_of_foldl_keepLonger h).1 id'
    (List.mem_filter.mpr ⟨hid', isProperPrefix_iff.mpr ⟨hstarts', hne'⟩⟩)

/-- Something always remains of a token behind the identifier it starts with. -/
theorem drop_longestPrefix?_ne_nil (h : s.longestPrefix? token = some id) :
    token.drop id.length ≠ [] := by
  have hlongest := isLongestPrefix_of_longestPrefix? h
  rw [ne_eq, List.drop_eq_nil_iff]
  exact fun hle ↦ hlongest.ne (hlongest.isPrefix.eq_of_length_le hle)

def IsShapeLabel (u : Text) : Prop :=
  u = [] ∨ IsSquareLabel u ∨ (∃ x, u = '(' :: (x ++ [')']) ∧ ')' ∉ x) ∨
    ∃ x, u = '\x7b' :: (x ++ ['\x7d']) ∧ '\x7d' ∉ x

def IsSourceArrow (u : Text) : Prop := IsArrow u ∨ u = Text.of "--" ∨ u = Text.of "<--"

theorem takes_sourcePattern {u r : Text} {gs : Groups} :
    sourcePattern.Takes [] u r gs ↔ ∃ s id s₁ label s₂ arrow,
      u = s ++ (id ++ (s₁ ++ (label ++ (s₂ ++ arrow)))) ∧ gs = [("id", id)] ∧ Blank s ∧ IsIdent id ∧
        Blank s₁ ∧ IsShapeLabel label ∧ Blank s₂ ∧ IsSourceArrow arrow := by
  have hlabel : ∀ b u r gs, (opt (squareLabel ||| sign "(" ++ star true (noneOf ")") ++ sign ")" |||
      sign "\x7b" ++ star true (noneOf "\x7d") ++ sign "\x7d")).Takes b u r gs ↔
        IsShapeLabel u ∧ gs = [] := by
    intro b u r gs
    simp only [takes_opt, takes_or, takes_squareLabel, takes_append_sign, takes_append_star_noneOf,
      takes_sign, existsAndEq, true_and, String.reduceToList, List.mem_singleton, forall_eq,
      IsShapeLabel, List.cons_append, List.nil_append]
    grind
  have harrow : ∀ b u r gs, (arrowPattern ||| sign "--" ||| sign "<--").Takes b u r gs ↔
      IsSourceArrow u ∧ gs = [] := by
    intro b u r gs
    simp only [takes_or, takes_arrowPattern, takes_sign, IsSourceArrow, Text.of, ← or_and_right,
      or_assoc]
  simp only [sourcePattern, many, takes_append_of harrow, takes_append_of hlabel,
    takes_append_blanks, takes_append_group, takes_ident, takes_textStart, existsAndEq, and_true,
    true_and, and_assoc, List.append_assoc, List.nil_append]
  constructor
  · rintro ⟨arrow, s₂, label, s₁, s, id, hu, harrow, hs₂, hlabel, hs₁, hgs, hid, hs⟩
    exact ⟨s, id, s₁, label, s₂, arrow, hu, hgs, hs, hid, hs₁, hlabel, hs₂, harrow⟩
  · rintro ⟨s, id, s₁, label, s₂, arrow, hu, hgs, hs, hid, hs₁, hlabel, hs₂, harrow⟩
    exact ⟨arrow, s₂, label, s₁, s, id, hu, harrow, hs₂, hlabel, hs₁, hgs, hid, hs⟩

theorem not_isIdentChar_head {u r : Text} (hu : ∀ c ∈ u.head?, isIdentChar c = false)
    (hr : ∀ c ∈ r.head?, isIdentChar c = false) : ∀ c ∈ (u ++ r).head?, isIdentChar c = false := by
  cases u with
  | nil => exact hr
  | cons d u => exact hu

theorem IsShapeLabel.head {u : Text} (hu : IsShapeLabel u) :
    ∀ c ∈ u.head?, isIdentChar c = false := by
  rcases hu with rfl | ⟨x, rfl, -⟩ | ⟨x, rfl, -⟩ | ⟨x, rfl, -⟩ <;> rintro c ⟨⟩ <;> decide

theorem IsSourceArrow.head {u r : Text} (hu : IsSourceArrow u) :
    ∀ c ∈ (u ++ r).head?, isIdentChar c = false := by
  rcases hu with ((rfl | rfl) | rfl | rfl) | rfl | rfl <;> rintro c ⟨⟩ <;> decide

theorem not_isIdentChar_head_blank {u : Text} (hu : Blank u) :
    ∀ c ∈ u.head?, isIdentChar c = false :=
  fun c hc ↦ not_isIdentChar_of_isBlank (hu c (List.mem_of_head? hc))

/-- The first source of a line is found. -/
theorem mem_definedIn_source {s id s₁ label s₂ arrow r : Text} (hs : Blank s) (hid : IsIdent id)
    (hs₁ : Blank s₁) (hlabel : IsShapeLabel label) (hs₂ : Blank s₂) (harrow : IsSourceArrow arrow) :
    id ∈ definedIn (s ++ (id ++ (s₁ ++ (label ++ (s₂ ++ (arrow ++ r)))))) := by
  have hnext : ∀ {s₁ label s₂ arrow r : Text}, Blank s₁ → IsShapeLabel label → Blank s₂ →
      IsSourceArrow arrow →
      ∀ c ∈ (s₁ ++ (label ++ (s₂ ++ (arrow ++ r)))).head?, isIdentChar c = false :=
    fun hs₁ hlabel hs₂ harrow ↦ not_isIdentChar_head (not_isIdentChar_head_blank hs₁)
      (not_isIdentChar_head hlabel.head
        (not_isIdentChar_head (not_isIdentChar_head_blank hs₂) harrow.head))
  have htakes : sourcePattern.Takes [] (s ++ (id ++ (s₁ ++ (label ++ (s₂ ++ arrow))))) r
      [("id", id)] :=
    takes_sourcePattern.mpr
      ⟨s, id, s₁, label, s₂, arrow, rfl, rfl, hs, hid, hs₁, hlabel, hs₂, harrow⟩
  obtain ⟨m, hm⟩ := Option.isSome_iff_exists.mp (matchAt?_isSome (by decide) htakes)
  obtain ⟨⟨gs, h, hgs⟩, hb, hline⟩ := of_match? (by decide) hm
  obtain ⟨s', id', s₁', label', s₂', arrow', hu, rfl, hs', hid', hs₁', hlabel', hs₂', harrow'⟩ :=
    takes_sourcePattern.mp (hb ▸ h)
  have hgroup : m.group "id" = id' := by
    rw [Match.group, hgs]
    rfl
  have heq : s ++ (id ++ (s₁ ++ (label ++ (s₂ ++ (arrow ++ r))))) =
      s' ++ (id' ++ (s₁' ++ (label' ++ (s₂' ++ (arrow' ++ m.after))))) := by
    simpa [hu] using hline
  obtain ⟨rfl, -⟩ := hid.unique hs hs' hid' (hnext hs₁ hlabel hs₂ harrow)
    (hnext hs₁' hlabel' hs₂' harrow') heq
  have hm' : sourcePattern.match? (s ++ (id ++ (s₁ ++ (label ++ (s₂ ++ (arrow ++ r)))))) =
      some m := by
    simpa [match?] using hm
  simp [definedIn, hm', hgroup]

theorem takes_definitionPattern {b u r : Text} {gs : Groups} :
    definitionPattern.Takes b u r gs ↔ ∃ id s c, u = id ++ (s ++ [c]) ∧ gs = [("id", id)] ∧
      (∀ c ∈ b.head?, isIdentChar c = false) ∧ IsIdent id ∧ Blank s ∧ c ∈ "[(\x7b".toList := by
  simp only [definitionPattern, oneOf, takes_append_one, takes_append_blanks, takes_append_group,
    takes_ident, notPrecededBy, takes_place, existsAndEq, true_and, and_assoc, List.append_assoc,
    List.nil_append, among_eq_true, Bool.not_eq_true']
  have hbefore : (b.head?.any isIdentChar = false) ↔ ∀ c ∈ b.head?, isIdentChar c = false := by
    cases b.head? <;> simp
  simp only [hbefore]
  constructor
  · rintro ⟨c, id, s, hu, hc, hs, hgs, hid, hb⟩
    exact ⟨id, s, c, hu, hgs, hb, hid, hs, hc⟩
  · rintro ⟨id, s, c, hu, hgs, hb, hid, hs, hc⟩
    exact ⟨c, id, s, hu, hc, hs, hgs, hid, hb⟩

/-- Every name before a bracket is found. -/
theorem mem_definedIn_label {a id r : Text} (ha : ∀ c ∈ a.getLast?, isIdentChar c = false)
    (hid : IsIdent id) : id ∈ definedIn (a ++ (id ++ '[' :: r)) := by
  have htakes : definitionPattern.Takes (a.reverse ++ []) (id ++ ['[']) r [("id", id)] := by
    refine takes_definitionPattern.mpr ⟨id, [], '[', rfl, rfl, ?_, hid, by decide, by decide⟩
    simpa using ha
  obtain ⟨m, w, w', hm, ⟨gs, h, hgs⟩, hwhole, hne, hbefore, hafter⟩ :=
    (scans_pieces (by decide) (by decide) _).exists_over (t := a ++ (id ++ '[' :: r)) (by simp)
      (by simp) htakes
  obtain ⟨id', s, c, hu, rfl, hb, hid', hs, hc⟩ := takes_definitionPattern.mp h
  have hgroup : m.group "id" = id' := by
    rw [Match.group, hgs]
    rfl
  -- The match ends with its bracket, so it reaches to the end of the name and the bracket there.
  obtain ⟨v, d, rfl⟩ := (List.eq_nil_or_concat w').resolve_left hne
  have hsigns : ∀ c ∈ "[(\x7b".toList, (isIdentChar c || Text.isBlank c) = false := by decide
  have hends : w ++ v = id' ++ s ∧ d = c := by
    have heq : w ++ v ++ [d] = id' ++ s ++ [c] := by simpa [hwhole] using hu
    simpa using List.append_inj' heq rfl
  obtain ⟨hword, rfl⟩ := hends
  have hv : ∀ e ∈ v, (isIdentChar e || Text.isBlank e) = true := by
    intro e he
    have hmem : e ∈ id' ++ s := hword ▸ List.mem_append_right w he
    rcases List.mem_append.mp hmem with hmem | hmem
    · simp [hid'.2 e hmem]
    · simp [hs e hmem]
  have hcut : v ++ d :: m.after = id ++ '[' :: r := by simpa using hafter
  obtain ⟨rfl, -⟩ := Text.run_unique (P := fun e ↦ isIdentChar e || Text.isBlank e) hv
    (fun e he ↦ by simp [hid.2 e he]) (by rintro e ⟨⟩; exact hsigns _ hc) (by rintro e ⟨⟩; decide)
    hcut
  have hword' : w ++ v ++ [] = id' ++ s := by simpa using hword
  obtain ⟨rfl, -⟩ := Text.run_unique_right (P := Text.isBlank) (by decide) hs
    (fun e he ↦ not_isBlank_of_isIdentChar (hid.getLast he))
    (fun e he ↦ not_isBlank_of_isIdentChar (hid'.getLast (s := []) he)) hword'
  rcases List.eq_nil_or_concat w with rfl | ⟨p, e, rfl⟩
  · have hfound : m ∈ definitionPattern.findAll (a ++ (v ++ '[' :: r)) :=
      List.mem_filterMap.mpr ⟨_, hm, rfl⟩
    exact List.mem_append_right _ (List.mem_map.mpr ⟨m, hfound, hgroup⟩)
  · -- Otherwise the character before the name would belong to it.
    have he : isIdentChar e := hid'.2 e (by simp)
    have hlast : e ∈ a.getLast? := by
      have hhead := congrArg List.head? hbefore
      simpa using hhead.symm
    simp [ha e hlast] at he

theorem mem_defined_harvest (hl : line ∈ Text.lines content) (hstatement : isStatement line)
    (hid : id ∈ definedIn line) (hname : id ∉ keywords) : id ∈ (harvest content).defined := by
  simp only [harvest, List.mem_eraseDups, List.mem_filter, List.mem_flatMap]
  exact ⟨⟨line, ⟨hl, hstatement⟩, hid⟩, by simpa using hname⟩

end DiagramRepair.IdSet
