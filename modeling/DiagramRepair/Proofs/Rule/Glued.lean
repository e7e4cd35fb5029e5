import DiagramRepair.Rule.Node
import DiagramRepair.Proofs.Analysis.Identifiers
import DiagramRepair.Proofs.Pattern.First
import DiagramRepair.Proofs.Text.Lines
import Mathlib.Tactic.SplitIfs

namespace DiagramRepair.Rule

open Pattern

variable {ids : IdSet} {token start b u r : Text} {c : Char}

def IsHead (Q : Text → Prop) (u : Text) : Prop :=
  ∃ arrow bar s, u = arrow ++ (bar ++ s) ∧ Q arrow ∧ (bar = [] ∨ IsBarLabel bar) ∧ Blank s

theorem takes_head {p : Pattern} {Q : Text → Prop} {gs : Groups}
    (hp : ∀ b u r gs, p.Takes b u r gs ↔ Q u ∧ gs = []) :
    (p ++ opt barLabel ++ blanks).Takes b u r gs ↔ IsHead Q u ∧ gs = [] := by
  have hbar : ∀ b u r gs, (opt barLabel).Takes b u r gs ↔ (u = [] ∨ IsBarLabel u) ∧ gs = [] := by
    intro b u r gs
    rw [takes_opt, takes_barLabel, ← or_and_right, or_comm]
  simp only [takes_append_blanks, takes_append_of hbar, hp, existsAndEq, true_and,
    List.append_assoc, IsHead]
  constructor
  · rintro ⟨s, arrow, bar, rfl, hs, hbar, harrow, rfl⟩
    exact ⟨⟨arrow, bar, s, rfl, harrow, hbar, hs⟩, rfl⟩
  · rintro ⟨⟨arrow, bar, s, rfl, harrow, hbar, hs⟩, rfl⟩
    exact ⟨s, arrow, bar, rfl, hs, hbar, harrow, rfl⟩

def IsSplitPoint (ids : IdSet) (token start : Text) : Prop :=
  ids.IsLongestPrefix token start ∨ 2 ≤ start.length ∧ start ++ start <+: token

theorem of_doubledPrefix? (h : doubledPrefix? token = some start) :
    2 ≤ start.length ∧ start ++ start <+: token := by
  obtain ⟨k, hk, h⟩ := List.exists_of_findSome?_eq_some h
  rw [doubledAt?, Option.ite_none_right_eq_some] at h
  obtain ⟨hdouble, h⟩ := h
  obtain rfl := Option.some.inj h
  obtain ⟨i, hi, rfl⟩ := List.mem_range'.mp hk
  refine ⟨by rw [List.length_take]; omega, ?_⟩
  nth_rewrite 2 [hdouble]
  rw [← List.take_add]
  exact List.take_prefix _ _

/-- Both parts of the token have characters. -/
theorem IsSplitPoint.exists_append (h : IsSplitPoint ids token start)
    (hids : ∀ id ∈ ids.ids, id ≠ []) :
    start ≠ [] ∧ ∃ remainder, remainder ≠ [] ∧ token = start ++ remainder := by
  rcases h with h | ⟨hlength, remainder, rfl⟩
  · obtain ⟨remainder, rfl⟩ := h.isPrefix
    refine ⟨hids start h.mem, remainder, fun hnil ↦ h.ne ?_, rfl⟩
    rw [hnil, List.append_nil]
  · have hne : start ≠ [] := List.ne_nil_of_length_pos (by omega)
    exact ⟨hne, start ++ remainder, by simp [hne], by simp⟩

/-- With identifiers only, a token can always be judged. -/
theorem splitPoint?_ok (hids : ∀ id ∈ ids.ids, id ≠ []) (token : Text) :
    ∃ start?, splitPoint? ids token = .ok start? ∧
      ∀ start ∈ start?, IsSplitPoint ids token start := by
  have hdoubled : ∀ start ∈ doubledPrefix? token, IsSplitPoint ids token start :=
    fun start h ↦ .inr (of_doubledPrefix? h)
  cases hprefix : ids.longestPrefix? token with
  | none =>
    exact ⟨doubledPrefix? token, by simp [splitPoint?, hprefix, pure, Except.pure], hdoubled⟩
  | some id =>
    have hlongest := IdSet.isLongestPrefix_of_longestPrefix? hprefix
    have hjudge : ∃ ok, isPlausibleBoundary id (token.drop id.length) = .ok ok := by
      rw [isPlausibleBoundary]
      split
      · exact ⟨true, rfl⟩
      · rw [List.getLast?_eq_some_getLast (hids id hlongest.mem)]
        exact ⟨_, rfl⟩
    obtain ⟨ok, hok⟩ := hjudge
    cases ok with
    | true =>
      refine ⟨some id, ?_, fun start h ↦ ?_⟩
      · simp [splitPoint?, hprefix, hok, pure, Except.pure, bind, Except.bind]
      · obtain rfl := Option.some.inj h
        exact .inl hlongest
    | false =>
      refine ⟨doubledPrefix? token, ?_, hdoubled⟩
      simp [splitPoint?, hprefix, hok, pure, Except.pure, bind, Except.bind]

theorem splitTarget_ok (hids : ∀ id ∈ ids.ids, id ≠ []) (content : Text) (m : Match) :
    ∃ v, splitTarget ids content m = .ok v ∧ (v = m.whole ∨ ∃ start remainder,
      m.group "token" = start ++ remainder ∧ start ≠ [] ∧ remainder ≠ [] ∧
        IsSplitPoint ids (start ++ remainder) start ∧ start ++ remainder ∉ ids.defined ∧
          v = m.group "arrow" ++ start ++ ['[', '"'] ++
            Text.dropQuotes (Text.trim (remainder ++ m.group "rest")) ++ ['"', ']'] ++
              m.group "end") := by
  generalize htoken : m.group "token" = token
  obtain ⟨start?, hpoint, hstart⟩ := splitPoint?_ok hids token
  simp only [splitTarget, htoken, hpoint, pure, Except.pure, bind, Except.bind]
  split_ifs with hdefined
  · exact ⟨m.whole, rfl, .inl rfl⟩
  · cases start? with
    | none => exact ⟨m.whole, rfl, .inl rfl⟩
    | some start =>
      have hsplit := hstart start rfl
      obtain ⟨hne, remainder, hne', rfl⟩ := hsplit.exists_append hids
      simp only [List.drop_left]
      split_ifs
      · exact ⟨m.whole, rfl, .inl rfl⟩
      · exact ⟨m.whole, rfl, .inl rfl⟩
      · refine ⟨_, rfl, .inr ⟨start, remainder, rfl, hne, hne', hsplit, ?_, rfl⟩⟩
        simpa using hdefined

/-- What stands around and in a target: the head of the edge, the target itself, what follows it and
the terminator. -/
structure IsGluedTarget (head token rest e r : Text) : Prop where
  isHead : IsHead IsArrow head
  isIdent : IsIdent token
  boundary : ∀ c ∈ (rest ++ (e ++ r)).head?, isIdentChar c = false
  plain : ∀ c ∈ "[];\"&".toList, c ∉ rest
  last : ∀ c ∈ rest.getLast?, Text.isBlank c = false
  isTerminator : IsTerminator e
  lineEnd : r = [] ∨ r = ['\n']

theorem of_gluedTargetPattern {t : Text} {m : Match}
    (h : gluedTargetPattern.matchAt? b t = some m) :
    m.whole = m.group "arrow" ++ (m.group "token" ++ (m.group "rest" ++ m.group "end")) ∧
      IsGluedTarget (m.group "arrow") (m.group "token") (m.group "rest") (m.group "end")
        m.after := by
  have hone : (noneOf "[];-\"&" ||| singleDash).TakesOne := by
    rintro b u r gs (⟨c, -, rfl, -⟩ | h)
    · rfl
    · rw [(takes_singleDash.mp h).1]
      rfl
  rw [gluedTargetPattern, matchAt?_append_assoc] at h
  obtain ⟨u, rest, e, gs, gs', hwhole, hgs, hu, hrest, he, hearly⟩ :=
    of_matchAt?_lazy (by decide) (by decide) (by decide) (by decide) hone h
  have hend : ∀ b u r gs,
      (group "end" (blanks ++ opt (sign ";") ++ blanks) ++ lastLineEnd).Takes b u r gs ↔
        (r = [] ∨ r = ['\n']) ∧ IsTerminator u ∧ gs = [("end", u)] := by
    intro b u r gs
    simp only [takes_append_lastLineEnd, takes_group, takes_terminator]
    grind
  simp only [takes_append_notAhead_one, takes_append_group, takes_group, takes_ident,
    ↓takes_head (fun _ _ _ _ ↦ takes_arrowPattern), existsAndEq, and_true, true_and,
    and_assoc] at hu
  rw [manyLazy, takes_star_noneOf_singleDash (by decide)] at hrest
  obtain ⟨hr, hterminator, rfl⟩ := (hend _ _ _ _).mp he
  obtain ⟨hboundary, head, token, rfl, rfl, htoken, hhead⟩ := hu
  have hlast : ∀ c ∈ rest.getLast?, Text.isBlank c = false := by
    intro c hc
    rw [Bool.eq_false_iff]
    intro hblank
    -- From before the blank the terminator would have been reached already.
    obtain ⟨v, rfl⟩ := List.getLast?_eq_some_iff.mp hc
    refine hearly v [c] rfl (by simp) (c :: e) m.after _ rfl ((hend _ _ _ _).mpr ⟨hr, ?_, rfl⟩)
    exact hterminator.cons hblank
  have hmem : ∀ c ∈ "[];\"&".toList, c ∈ "[];-\"&".toList ∧ c ≠ '-' := by decide
  simp only [Match.group, hgs]
  refine ⟨by rw [hwhole, List.append_assoc]; rfl, hhead, htoken, hboundary, fun c hc ↦ ?_, hlast,
    hterminator, hr⟩
  exact hrest.1 c (hmem c hc).1 (hmem c hc).2

/-- Brackets and quotes are put around what follows the start of a target, up to its terminator. -/
inductive SplitsGlued (ids : IdSet) : Text → Text → Prop
  | mk {b head start remainder rest e : Text} (hhead : IsHead IsArrow head)
    (htarget : IsIdent (start ++ remainder)) (hstart : start ≠ []) (hremainder : remainder ≠ [])
    (hboundary : ∀ c ∈ (rest ++ e).head?, isIdentChar c = false)
    (hpoint : IsSplitPoint ids (start ++ remainder) start)
    (hdefined : start ++ remainder ∉ ids.defined)
    (hplain : ∀ c ∈ "[];\"&".toList, c ∉ rest)
    (hlast : ∀ c ∈ (remainder ++ rest).getLast?, Text.isBlank c = false) (he : IsTerminator e) :
    SplitsGlued ids (b ++ (head ++ (start ++ (remainder ++ (rest ++ e)))))
      (b ++ (head ++ (start ++ (Text.of "[\"" ++ (remainder ++ (rest ++ (Text.of "\"]" ++ e)))))))

/-- Of the label nothing is trimmed, and there are no quotes in it to drop. -/
theorem dropQuotes_trim_label {remainder rest : Text} (hremainder : IsIdent remainder)
    (hplain : '"' ∉ rest) (hlast : ∀ c ∈ (remainder ++ rest).getLast?, Text.isBlank c = false) :
    Text.dropQuotes (Text.trim (remainder ++ rest)) = remainder ++ rest := by
  rw [Text.trim_eq_self (fun c hc ↦ hremainder.isBlank_head hc) hlast, Text.dropQuotes,
    List.filter_eq_self]
  intro c hc
  rw [bne_iff_ne]
  rintro rfl
  rcases List.mem_append.mp hc with hc | hc
  · exact absurd (hremainder.2 _ hc) (by decide)
  · exact hplain hc

theorem splitGluedTarget_cases (hids : ∀ id ∈ ids.ids, id ≠ []) (content line : Text) :
    ∃ t, splitGluedTarget ids content line = .ok t ∧
      (t = line ∨ ¬ Text.of "subgraph" <:+: line ∧ SplitsGlued ids line t) := by
  rw [splitGluedTarget]
  split
  · exact ⟨line, rfl, .inl rfl⟩
  · rename_i hsubgraph
    rw [Text.includes_iff] at hsubgraph
    split
    · exact ⟨line, rfl, .inl rfl⟩
    · rename_i m hm
      obtain ⟨-, hline⟩ := of_search? (by decide) hm
      obtain ⟨s, r, -, hmatch⟩ := matchAt?_of_search? hm
      obtain ⟨hwhole, htarget⟩ := of_gluedTargetPattern hmatch
      obtain ⟨v, hv, hsplit⟩ := splitTarget_ok hids content m
      refine ⟨m.before.reverse ++ v ++ m.after, by rw [hv]; rfl, ?_⟩
      rcases hsplit with rfl | ⟨start, remainder, htoken, hstart, hne, hpoint, hdefined, rfl⟩
      · exact .inl (by rw [hline, List.append_assoc])
      · rw [htoken] at hwhole htarget
        have hremainder : IsIdent remainder := ⟨hne, fun c hc ↦ htarget.isIdent.2 c (by simp [hc])⟩
        have hlast : ∀ c ∈ (remainder ++ m.group "rest").getLast?, Text.isBlank c = false := by
          intro c hc
          rw [List.getLast?_append, Option.mem_def, Option.or_eq_some_iff] at hc
          rcases hc with hc | ⟨-, hc⟩
          · exact htarget.last c hc
          · exact not_isBlank_of_isIdentChar (hremainder.getLast (s := []) hc)
        have hterminator : IsTerminator (m.group "end" ++ m.after) := by
          refine htarget.isTerminator.append ?_
          rcases htarget.lineEnd with h | h <;> rw [h] <;> decide
        rw [dropQuotes_trim_label hremainder (htarget.plain _ (by decide)) hlast]
        rw [hline, hwhole] at hsubgraph ⊢
        simp only [List.append_assoc] at hsubgraph ⊢
        exact .inr ⟨hsubgraph, .mk htarget.isHead htarget.isIdent hstart hne htarget.boundary hpoint
          hdefined htarget.plain hlast hterminator⟩

inductive SplitsTarget : Text → Text → Prop
  | mk {b head start remainder rest e r : Text} (hhead : IsHead IsArrow head)
    (hstart : IsIdent start) (hremainder : IsIdent remainder)
    (hrest : ∀ c ∈ "[];\"&".toList, c ∉ rest) (he : IsTerminator e) (hr : r = [] ∨ r = ['\n']) :
    SplitsTarget (b ++ (head ++ (start ++ (remainder ++ (rest ++ (e ++ r))))))
      (b ++ (head ++ (start ++ (Text.of "[\"" ++ (Text.dropQuotes (Text.trim (remainder ++ rest)) ++
        (Text.of "\"]" ++ (e ++ r)))))))

theorem SplitsGlued.splitsTarget {l l' : Text} (h : SplitsGlued ids l l') : SplitsTarget l l' := by
  obtain @⟨b, head, start, remainder, rest, e, hhead, ⟨-, htarget⟩, hstart, hne, -, -, -, hplain,
    hlast, he⟩ := h
  simp only [List.mem_append, or_imp, forall_and] at htarget
  have hremainder : IsIdent remainder := ⟨hne, htarget.2⟩
  have hsplit := SplitsTarget.mk (b := b) (r := []) hhead ⟨hstart, htarget.1⟩ hremainder hplain he
    (.inl rfl)
  simpa only [dropQuotes_trim_label hremainder (hplain _ (by decide)) hlast, List.append_nil,
    List.append_assoc] using hsplit

theorem splitGluedTarget_ok (hids : ∀ id ∈ ids.ids, id ≠ []) (content line : Text) :
    ∃ t, splitGluedTarget ids content line = .ok t ∧ (t = line ∨ SplitsTarget line t) := by
  obtain ⟨t, ht, hcases⟩ := splitGluedTarget_cases hids content line
  exact ⟨t, ht, hcases.imp_right fun h ↦ h.2.splitsTarget⟩

end DiagramRepair.Rule
