import DiagramRepair.Proofs.Pattern.Takes
import Mathlib.Tactic.Simproc.ExistsAndEq

namespace DiagramRepair.Pattern

variable {p q : Pattern} {b u r t : Text} {gs : Groups}

theorem takes_append : (p ++ q).Takes b u r gs ↔ ∃ v w g g', u = v ++ w ∧ gs = g' ++ g ∧
    p.Takes b v (w ++ r) g ∧ q.Takes (v.reverse ++ b) w r g' := .rfl

theorem takes_or : (p ||| q).Takes b u r gs ↔ p.Takes b u r gs ∨ q.Takes b u r gs := .rfl

theorem takes_one {cls : CharClass} :
    (one cls).Takes b u r gs ↔ ∃ c, cls c ∧ u = [c] ∧ gs = [] := .rfl

theorem takes_group {name : String} :
    (group name p).Takes b u r gs ↔ ∃ g, gs = (name, u) :: g ∧ p.Takes b u r g := .rfl

theorem takes_char {c : Char} : (char c).Takes b u r gs ↔ u = [c] ∧ gs = [] := by
  simp [char, Takes]

theorem takes_lit : (lit t).Takes b u r gs ↔ u = t ∧ gs = [] := by
  induction t generalizing b u r gs with
  | nil => simp [lit, Takes]
  | cons c t ih =>
    have hlit : lit (c :: t) = char c ++ lit t := rfl
    rw [hlit, takes_append]
    simp only [takes_char, ih]
    constructor
    · rintro ⟨v, w, g, g', rfl, rfl, ⟨rfl, rfl⟩, rfl, rfl⟩
      exact ⟨rfl, rfl⟩
    · rintro ⟨rfl, rfl⟩
      exact ⟨[c], t, [], [], rfl, rfl, ⟨rfl, rfl⟩, rfl, rfl⟩

theorem steady_lit (t : Text) : (lit t).steady := by
  induction t with
  | nil => rfl
  | cons c t ih => exact ih

theorem takes_sign {s : String} : (sign s).Takes b u r gs ↔ u = s.toList ∧ gs = [] := takes_lit

theorem takes_opt : (opt p).Takes b u r gs ↔ p.Takes b u r gs ∨ u = [] ∧ gs = [] := .rfl

theorem takes_notAhead :
    (notAhead p).Takes b u r gs ↔ u = [] ∧ gs = [] ∧ ¬ ∃ v w g, r = v ++ w ∧ p.Takes b v w g := by
  simp [notAhead, Takes]

theorem takes_place {test : Option Char → Text → Bool} :
    (place test).Takes b u r gs ↔ u = [] ∧ gs = [] ∧ test b.head? r := .rfl

theorem takes_star {greedy : Bool} :
    (star greedy p).Takes b u r gs ↔ Rounds p.Takes b u r gs := .rfl

theorem takes_star_of {greedy : Bool} {Q : Text → Prop}
    (hp : ∀ b u r gs, p.Takes b u r gs ↔ Q u ∧ gs = []) :
    (star greedy p).Takes b u r gs ↔
      (∃ us : List Text, u = us.flatten ∧ ∀ v ∈ us, Q v) ∧ gs = [] := by
  rw [takes_star]
  constructor
  · intro h
    induction h with
    | nil => exact ⟨⟨[], rfl, by simp⟩, rfl⟩
    | @cons b u v r g g' hu hv ih =>
      obtain ⟨⟨us, rfl, hus⟩, rfl⟩ := ih
      obtain ⟨hQ, rfl⟩ := (hp _ _ _ _).mp hu
      exact ⟨⟨u :: us, rfl, by simpa using ⟨hQ, hus⟩⟩, rfl⟩
  · rintro ⟨⟨us, rfl, hus⟩, rfl⟩
    induction us generalizing b with
    | nil => exact .nil _ _
    | cons v us ih =>
      have hv : p.Takes b v (us.flatten ++ r) [] := (hp _ _ _ _).mpr ⟨hus v (by simp), rfl⟩
      exact .cons hv (ih (fun w hw ↦ hus w (by simp [hw])))

theorem takes_star_one {greedy : Bool} {cls : CharClass} :
    (star greedy (one cls)).Takes b u r gs ↔ (∀ c ∈ u, cls c) ∧ gs = [] := by
  rw [takes_star]
  constructor
  · intro h
    induction h with
    | nil => simp
    | cons hu hv ih =>
      obtain ⟨c, hc, rfl, rfl⟩ := hu
      simp_all
  · rintro ⟨hu, rfl⟩
    induction u generalizing b with
    | nil => exact .nil _ _
    | cons c u ih =>
      have hc : (one cls).Takes b [c] (u ++ r) [] := ⟨c, hu c (by simp), rfl, rfl⟩
      exact .cons hc (ih (fun d hd ↦ hu d (by simp [hd])))

theorem takes_many_one {cls : CharClass} :
    (many (one cls)).Takes b u r gs ↔ (∀ c ∈ u, cls c) ∧ gs = [] := takes_star_one

theorem takes_many1_one {cls : CharClass} :
    (many1 (one cls)).Takes b u r gs ↔ u ≠ [] ∧ (∀ c ∈ u, cls c) ∧ gs = [] := by
  rw [many1, takes_append]
  simp only [takes_one, takes_many_one]
  constructor
  · rintro ⟨v, w, g, g', rfl, rfl, ⟨c, hc, rfl, rfl⟩, hw, rfl⟩
    simp_all
  · rintro ⟨hne, hu, rfl⟩
    obtain ⟨c, u, rfl⟩ := List.exists_cons_of_ne_nil hne
    exact ⟨[c], u, [], [], rfl, rfl, ⟨c, hu c (by simp), rfl, rfl⟩,
      fun d hd ↦ hu d (by simp [hd]), rfl⟩

theorem takes_many1Lazy_one {cls : CharClass} :
    (many1Lazy (one cls)).Takes b u r gs ↔ (u ≠ [] ∧ ∀ c ∈ u, cls c) ∧ gs = [] :=
  takes_many1_one.trans and_assoc.symm

theorem forall_any_iff : (∀ c ∈ u, (c != '\n') = true) ↔ '\n' ∉ u := by
  refine ⟨fun h hu ↦ by simpa using h _ hu, fun h c hc ↦ ?_⟩
  rw [bne_iff_ne]
  rintro rfl
  exact h hc

theorem takes_star_any {greedy : Bool} :
    (star greedy any).Takes b u r gs ↔ '\n' ∉ u ∧ gs = [] := by
  rw [any, takes_star_one, forall_any_iff]

theorem takes_many1Lazy_any :
    (many1Lazy any).Takes b u r gs ↔ (u ≠ [] ∧ '\n' ∉ u) ∧ gs = [] := by
  rw [any, takes_many1Lazy_one, forall_any_iff]

theorem takes_blanks : blanks.Takes b u r gs ↔ (∀ c ∈ u, Text.isBlank c) ∧ gs = [] :=
  takes_star_one

theorem takes_opt_sign {s : String} :
    (opt (sign s)).Takes b u r gs ↔ (u = s.toList ∨ u = []) ∧ gs = [] := by
  rw [takes_opt, takes_sign, or_and_right]

theorem takes_append_of {Q : (b u r : Text) → Prop}
    (hq : ∀ b u r gs, q.Takes b u r gs ↔ Q b u r ∧ gs = []) :
    (p ++ q).Takes b u r gs ↔
      ∃ v w, u = v ++ w ∧ Q (v.reverse ++ b) w r ∧ p.Takes b v (w ++ r) gs := by
  rw [takes_append]
  constructor
  · rintro ⟨v, w, g, g', rfl, rfl, hv, hw⟩
    obtain ⟨hQ, rfl⟩ := (hq _ _ _ _).mp hw
    exact ⟨v, w, rfl, hQ, hv⟩
  · rintro ⟨v, w, rfl, hw, hv⟩
    exact ⟨v, w, gs, [], rfl, rfl, hv, (hq _ _ _ _).mpr ⟨hw, rfl⟩⟩

theorem takes_append_sign {s : String} : (p ++ sign s).Takes b u r gs ↔
    ∃ v, u = v ++ s.toList ∧ p.Takes b v (s.toList ++ r) gs := by
  rw [takes_append_of (fun _ _ _ _ ↦ takes_sign)]
  exact ⟨fun ⟨v, _, hu, hw, hv⟩ ↦ ⟨v, hw ▸ hu, hw ▸ hv⟩, fun ⟨v, hu, hv⟩ ↦ ⟨v, _, hu, rfl, hv⟩⟩

theorem takes_append_one {cls : CharClass} : (p ++ one cls).Takes b u r gs ↔
    ∃ v c, u = v ++ [c] ∧ cls c ∧ p.Takes b v (c :: r) gs := by
  have hone : ∀ b u r gs, (one cls).Takes b u r gs ↔ (∃ c, cls c ∧ u = [c]) ∧ gs = [] := by
    simp [takes_one, ← and_assoc]
  rw [takes_append_of hone]
  constructor
  · rintro ⟨v, w, rfl, ⟨c, hc, rfl⟩, hv⟩
    exact ⟨v, c, rfl, hc, hv⟩
  · rintro ⟨v, c, rfl, hc, hv⟩
    exact ⟨v, [c], rfl, ⟨c, hc, rfl⟩, hv⟩

theorem takes_append_star_one {greedy : Bool} {cls : CharClass} :
    (p ++ star greedy (one cls)).Takes b u r gs ↔
      ∃ v w, u = v ++ w ∧ (∀ c ∈ w, cls c) ∧ p.Takes b v (w ++ r) gs :=
  takes_append_of (fun _ _ _ _ ↦ takes_star_one)

theorem takes_append_many1_one {cls : CharClass} : (p ++ many1 (one cls)).Takes b u r gs ↔
    ∃ v w, u = v ++ w ∧ (w ≠ [] ∧ ∀ c ∈ w, cls c) ∧ p.Takes b v (w ++ r) gs :=
  takes_append_of (fun _ _ _ _ ↦ takes_many1_one.trans and_assoc.symm)

theorem takes_append_blanks : (p ++ blanks).Takes b u r gs ↔
    ∃ v w, u = v ++ w ∧ (∀ c ∈ w, Text.isBlank c) ∧ p.Takes b v (w ++ r) gs :=
  takes_append_star_one

theorem takes_append_blanks1 : (p ++ blanks1).Takes b u r gs ↔
    ∃ v w, u = v ++ w ∧ (w ≠ [] ∧ ∀ c ∈ w, Text.isBlank c) ∧ p.Takes b v (w ++ r) gs :=
  takes_append_many1_one

theorem takes_append_opt_sign {s : String} : (p ++ opt (sign s)).Takes b u r gs ↔
    ∃ v w, u = v ++ w ∧ (w = s.toList ∨ w = []) ∧ p.Takes b v (w ++ r) gs :=
  takes_append_of (fun _ _ _ _ ↦ takes_opt_sign)

theorem exists_takes_of_append (hq : q.groupless) (h : (p ++ q).Takes b u r gs) :
    ∃ v r', p.Takes b v r' gs := by
  obtain ⟨v, w, g, g', rfl, rfl, hv, hw⟩ := takes_append.mp h
  obtain rfl := hw.groups_eq_nil hq
  exact ⟨v, _, hv⟩

theorem takes_append_group {name : String} : (p ++ group name q).Takes b u r gs ↔
    ∃ v w g g', u = v ++ w ∧ gs = (name, w) :: (g' ++ g) ∧ q.Takes (v.reverse ++ b) w r g' ∧
      p.Takes b v (w ++ r) g := by
  rw [takes_append]
  simp only [takes_group]
  constructor
  · rintro ⟨v, w, g, g', rfl, rfl, hv, g'', rfl, hw⟩
    exact ⟨v, w, g, g'', rfl, rfl, hw, hv⟩
  · rintro ⟨v, w, g, g', rfl, rfl, hw, hv⟩
    exact ⟨v, w, g, _, rfl, rfl, hv, g', rfl, hw⟩

theorem takes_append_place {test : Option Char → Text → Bool} :
    (p ++ place test).Takes b u r gs ↔
      test (u.reverse ++ b).head? r ∧ p.Takes b u r gs := by
  rw [takes_append]
  simp only [takes_place]
  constructor
  · rintro ⟨v, w, g, g', rfl, rfl, hv, rfl, rfl, ht⟩
    exact ⟨by simpa using ht, by simpa using hv⟩
  · rintro ⟨ht, hv⟩
    exact ⟨u, [], gs, [], by simp, rfl, hv, rfl, rfl, ht⟩

theorem takes_append_lastLineEnd : (p ++ lastLineEnd).Takes b u r gs ↔
    (r = [] ∨ r = ['\n']) ∧ p.Takes b u r gs := by
  simp [lastLineEnd, takes_append_place]

theorem takes_append_notAhead : (p ++ notAhead q).Takes b u r gs ↔
    (¬ ∃ v w g, r = v ++ w ∧ q.Takes (u.reverse ++ b) v w g) ∧ p.Takes b u r gs := by
  rw [takes_append]
  simp only [takes_notAhead]
  constructor
  · rintro ⟨v, w, g, g', rfl, rfl, hv, rfl, rfl, hq⟩
    exact ⟨by simpa using hq, by simpa using hv⟩
  · rintro ⟨hq, hv⟩
    exact ⟨u, [], gs, [], by simp, rfl, hv, rfl, rfl, hq⟩

end DiagramRepair.Pattern

namespace DiagramRepair

def Match.Of (m : Match) (p : Pattern) : Prop :=
  ∃ gs, p.Takes m.before m.whole m.after gs ∧ ∀ name, m.group? name = gs.lookup name

namespace Pattern

variable {p q : Pattern} {b u r t : Text} {gs : Groups} {m : Match}

theorem lookup_captured (cs : List (String × Text × Text)) (name : String) :
    (cs.map captured).lookup name =
      (cs.lookup name).map fun (start, stop) ↦ start.take (start.length - stop.length) := by
  induction cs with
  | nil => rfl
  | cons c cs ih =>
    obtain ⟨n, start, stop⟩ := c
    simp only [List.map_cons, captured, List.lookup_cons]
    split <;> simp [ih]

theorem of_matchAt? (hp : p.steady) (h : p.matchAt? b t = some m) :
    m.Of p ∧ m.before = b ∧ t = m.whole ++ m.after := by
  obtain ⟨u, r, cs, ht, htakes, hm⟩ := (sound_and_complete p hp).1 h
  simp only [Option.some.injEq] at ht hm
  subst hm
  have hu : t.take (t.length - r.length) = u := by simp [ht]
  refine ⟨⟨_, by simpa only [hu] using htakes, fun name ↦ ?_⟩, rfl, by simpa only [hu] using ht⟩
  rw [lookup_captured]
  simp [Match.group?]

theorem matchAt?_isSome (hp : p.steady) (h : p.Takes b u r gs) :
    (p.matchAt? b (u ++ r)).isSome :=
  (sound_and_complete p hp).2 (s := ⟨b, u ++ r, []⟩) rfl h (fun _ _ ↦ rfl)

theorem matchAt?_eq_none_iff (hp : p.steady) :
    p.matchAt? b t = none ↔ ∀ u r gs, t = u ++ r → ¬ p.Takes b u r gs := by
  constructor
  · rintro h u r gs rfl ht
    have hsome := matchAt?_isSome hp ht
    simp [h] at hsome
  · intro h
    rw [Option.eq_none_iff_forall_ne_some]
    intro m hm
    obtain ⟨⟨gs, ht, -⟩, rfl, htext⟩ := of_matchAt? hp hm
    exact h _ _ _ htext ht

theorem of_match? (hp : p.steady) (h : p.match? t = some m) :
    m.Of p ∧ m.before = [] ∧ t = m.whole ++ m.after := of_matchAt? hp h

theorem isMatch_iff (hp : p.steady) : p.isMatch t ↔ ∃ u r gs, t = u ++ r ∧ p.Takes [] u r gs := by
  constructor
  · intro h
    obtain ⟨m, hm⟩ := Option.isSome_iff_exists.mp h
    obtain ⟨⟨gs, htakes, -⟩, hb, ht⟩ := of_match? hp hm
    exact ⟨m.whole, m.after, gs, ht, hb ▸ htakes⟩
  · rintro ⟨u, r, gs, rfl, h⟩
    exact matchAt?_isSome hp h

theorem of_searchFrom? (hp : p.steady) (h : p.searchFrom? b t = some m) :
    m.Of p ∧ m.before.reverse ++ (m.whole ++ m.after) = b.reverse ++ t := by
  induction t generalizing b with
  | nil =>
    obtain ⟨hm, rfl, ht⟩ := of_matchAt? hp h
    exact ⟨hm, by rw [← ht]⟩
  | cons c t ih =>
    rw [searchFrom?] at h
    split at h
    · rename_i hc
      obtain ⟨hm, rfl, ht⟩ := of_matchAt? hp (hc.trans h)
      exact ⟨hm, by rw [← ht]⟩
    · simpa using ih h

theorem of_search? (hp : p.steady) (h : p.search? t = some m) :
    m.Of p ∧ t = m.before.reverse ++ (m.whole ++ m.after) := by
  obtain ⟨hm, ht⟩ := of_searchFrom? hp h
  exact ⟨hm, by simpa using ht.symm⟩

theorem matchAt?_of_searchFrom? (h : p.searchFrom? b t = some m) :
    ∃ s r, t = s ++ r ∧ p.matchAt? (s.reverse ++ b) r = some m := by
  induction t generalizing b with
  | nil => exact ⟨[], [], rfl, h⟩
  | cons c t ih =>
    rw [searchFrom?] at h
    split at h
    · rename_i hc
      exact ⟨[], c :: t, rfl, hc.trans h⟩
    · obtain ⟨s, r, rfl, hm⟩ := ih h
      exact ⟨c :: s, r, rfl, by simpa using hm⟩

/-- What a search finds is a match at some place. -/
theorem matchAt?_of_search? (h : p.search? t = some m) :
    ∃ s r, t = s ++ r ∧ p.matchAt? s.reverse r = some m := by
  simpa using matchAt?_of_searchFrom? h

theorem searchFrom?_eq_none (hp : p.steady) (h : p.searchFrom? b t = none) {s u r : Text}
    (ht : t = s ++ (u ++ r)) : ¬ p.Takes (s.reverse ++ b) u r gs := by
  induction t generalizing b s with
  | nil =>
    obtain ⟨rfl, hur⟩ := List.append_eq_nil_iff.mp ht.symm
    exact (matchAt?_eq_none_iff hp).mp h u r gs hur.symm
  | cons c t ih =>
    rw [searchFrom?] at h
    split at h
    · simp at h
    · rename_i hc
      cases s with
      | nil => exact (matchAt?_eq_none_iff hp).mp hc u r gs ht
      | cons d s =>
        obtain ⟨rfl, ht'⟩ := List.cons.inj ht
        simpa using ih h ht'

theorem search?_eq_none (hp : p.steady) (h : p.search? t = none) {s u r : Text}
    (ht : t = s ++ (u ++ r)) (gs : Groups) : ¬ p.Takes s.reverse u r gs := by
  simpa using searchFrom?_eq_none hp h ht

def Free (p : Pattern) (b t : Text) : Prop := ∀ u r gs, t = u ++ r → ¬ p.Takes b u r gs

/-- The pieces of a text behind `b`: matches, and characters at which no match starts. -/
inductive Scans (p : Pattern) : (b t : Text) → List Piece → Prop
  | nil (b : Text) : Scans p b [] []
  | plain {b t : Text} {c : Char} {ps : List Piece} :
      p.Free b (c :: t) → Scans p (c :: b) t ps → Scans p b (c :: t) (.plain c :: ps)
  | found {m : Match} {ps : List Piece} :
      m.Of p → Scans p (m.whole.reverse ++ m.before) m.after ps →
      Scans p m.before (m.whole ++ m.after) (.found m :: ps)

theorem piecesFrom_skip (p : Pattern) (n : Nat) (b u r : Text) (hn : u.length = n) :
    p.piecesFrom n b (u ++ r) = p.piecesFrom 0 (u.reverse ++ b) r := by
  induction u generalizing n b with
  | nil =>
    subst hn
    rfl
  | cons c u ih =>
    subst hn
    simpa [piecesFrom] using ih u.length (c :: b) rfl

theorem scans_piecesFrom (hp : p.steady) (hs : p.takesSome) (b t : Text) :
    Scans p b t (p.piecesFrom 0 b t) := by
  induction hn : t.length using Nat.strongRecOn generalizing b t with
  | _ n ih =>
    cases t with
    | nil =>
      rw [piecesFrom]
      exact .nil b
    | cons c t =>
      rw [piecesFrom]
      cases hm : p.matchAt? b (c :: t) with
      | none =>
        exact .plain ((matchAt?_eq_none_iff hp).mp hm) (ih t.length (by simp [← hn]) _ _ rfl)
      | some m =>
        obtain ⟨hof, rfl, ht⟩ := of_matchAt? hp hm
        obtain ⟨gs, htakes, -⟩ := id hof
        obtain ⟨d, u, hu⟩ := List.exists_cons_of_ne_nil (htakes.ne_nil hs)
        have htail : t = u ++ m.after := by simpa [hu] using congrArg List.tail ht
        have hlen : m.after.length < n := by
          rw [← hn, htail, List.length_cons, List.length_append]
          omega
        have hrest := ih _ hlen (m.whole.reverse ++ m.before) m.after rfl
        have hd : c = d := by simpa [hu] using congrArg List.head? ht
        subst hd
        have hskip := piecesFrom_skip p u.length (c :: m.before) u m.after rfl
        have hfound := Scans.found hof hrest
        simp only [hu, List.reverse_cons, List.append_assoc, List.nil_append,
          List.cons_append] at hfound
        simpa only [hu, List.isEmpty_cons, Bool.false_eq_true, if_false, List.length_cons,
          Nat.add_sub_cancel, htail, hskip] using hfound

theorem scans_pieces (hp : p.steady) (hs : p.takesSome) (t : Text) :
    Scans p [] t (p.pieces t) := scans_piecesFrom hp hs [] t

theorem Scans.of_mem {ps : List Piece} (h : Scans p b t ps) (hm : .found m ∈ ps) :
    m.Of p ∧ m.whole <:+: t := by
  induction h with
  | nil => simp at hm
  | @plain b t c _ _ _ ih =>
    obtain ⟨hof, hpart⟩ := ih (by simpa using hm)
    exact ⟨hof, hpart.trans (List.suffix_cons c t).isInfix⟩
  | @found m' _ hof _ ih =>
    rcases List.mem_cons.mp hm with heq | hm
    · obtain rfl := Piece.found.inj heq
      exact ⟨hof, (List.prefix_append _ _).isInfix⟩
    · obtain ⟨hof, hpart⟩ := ih hm
      exact ⟨hof, hpart.trans (List.suffix_append m'.whole m'.after).isInfix⟩

theorem Scans.text_of_mem {ps : List Piece} (h : Scans p b t ps) (hm : .found m ∈ ps) :
    m.before.reverse ++ (m.whole ++ m.after) = b.reverse ++ t := by
  induction h with
  | nil => simp at hm
  | plain _ _ ih => simpa using ih (by simpa using hm)
  | @found m' _ _ _ ih =>
    rcases List.mem_cons.mp hm with heq | hm
    · rw [Piece.found.inj heq]
    · simpa using ih hm

/-- Where the pattern can take something, a match starts there or an earlier one reaches over. -/
theorem Scans.exists_over {ps : List Piece} {s : Text} (h : Scans p b t ps)
    (ht : t = s ++ (u ++ r)) (hu : u ≠ []) (htakes : p.Takes (s.reverse ++ b) u r gs) :
    ∃ m w w', .found m ∈ ps ∧ m.Of p ∧ m.whole = w ++ w' ∧ w' ≠ [] ∧
      w.reverse ++ m.before = s.reverse ++ b ∧ w' ++ m.after = u ++ r := by
  induction h generalizing s with
  | nil => simp_all
  | @plain b t c ps hfree _ ih =>
    cases s with
    | nil => exact absurd htakes (hfree u r gs ht)
    | cons d s =>
      obtain ⟨rfl, ht'⟩ := List.cons.inj ht
      obtain ⟨m, w, w', hm, hrest⟩ := ih ht' (by simpa using htakes)
      exact ⟨m, w, w', by simp [hm], by simpa using hrest⟩
  | @found m ps hof _ ih =>
    rcases List.append_eq_append_iff.mp ht with ⟨s', rfl, hafter⟩ | ⟨w', hwhole, hrest⟩
    · obtain ⟨m', w, w', hm', hrest⟩ := ih hafter (by simpa using htakes)
      exact ⟨m', w, w', by simp [hm'], by simpa using hrest⟩
    · by_cases hne : w' = []
      · subst hne
        rw [List.append_nil] at hwhole
        obtain ⟨m', w, w', hm', hrest'⟩ := ih (s := []) hrest.symm (by simpa [hwhole] using htakes)
        exact ⟨m', w, w', by simp [hm'], by simpa [hwhole] using hrest'⟩
      · exact ⟨m, s, w', by simp, hof, hwhole, hne, rfl, hrest.symm⟩

theorem of_mem_findAll (hp : p.steady) (hs : p.takesSome) (h : m ∈ p.findAll t) : m.Of p := by
  rw [findAll, List.mem_filterMap] at h
  obtain ⟨piece, hpiece, h⟩ := h
  cases piece with
  | plain c => simp at h
  | found m' =>
    obtain rfl := Option.some.inj h
    exact ((scans_pieces hp hs t).of_mem hpiece).1

/-- Some stretches of a text behind `b` are replaced, what stands outside them is kept. -/
inductive Edits (E : (b u r v : Text) → Prop) : (b t t' : Text) → Prop
  | nil (b : Text) : Edits E b [] []
  | keep {b t t' : Text} {c : Char} : Edits E (c :: b) t t' → Edits E b (c :: t) (c :: t')
  | edit {b u r v t' : Text} :
      E b u r v → Edits E (u.reverse ++ b) r t' → Edits E b (u ++ r) (v ++ t')

theorem Edits.keep_append {E : (b u r v : Text) → Prop} {r t' : Text} (u b : Text)
    (h : Edits E (u.reverse ++ b) r t') : Edits E b (u ++ r) (u ++ t') := by
  induction u generalizing b with
  | nil => exact h
  | cons c u ih => exact .keep (ih (c :: b) (by simpa using h))

theorem Edits.eq_nil {E : (b u r v : Text) → Prop} {t' : Text}
    (hE : ∀ {b u r v}, E b u r v → u ≠ []) (h : Edits E b [] t') : t' = [] := by
  generalize ht : [] = t at h
  cases h with
  | nil => rfl
  | keep _ => simp at ht
  | edit he _ => exact absurd (List.append_eq_nil_iff.mp ht.symm).1 (hE he)

theorem Edits.sublist {E : (b u r v : Text) → Prop} (hE : ∀ {b u r v}, E b u r v → v.Sublist u)
    {t' : Text} (h : Edits E b t t') : t'.Sublist t := by
  induction h with
  | nil => exact .refl _
  | keep _ ih => exact ih.cons_cons _
  | edit he _ ih => exact (hE he).append ih

theorem Edits.eq_self {E : (b u r v : Text) → Prop} {P : Char → Prop}
    (hE : ∀ b u r v, E b u r v → ∃ c ∈ u, ¬ P c) {t' : Text} (h : Edits E b t t')
    (ht : ∀ c ∈ t, P c) : t' = t := by
  induction h with
  | nil => rfl
  | keep h ih => rw [ih (fun c hc ↦ ht c (by simp [hc]))]
  | edit he h ih =>
    obtain ⟨c, hc, hP⟩ := hE _ _ _ _ he
    exact absurd (ht c (by simp [hc])) hP

theorem Edits.eq_of_forall {E : (b u r v : Text) → Prop} {t' : Text} (h : Edits E b t t')
    (hE : ∀ s u r v, t = s ++ (u ++ r) → E (s.reverse ++ b) u r v → v = u) : t' = t := by
  induction h with
  | nil => rfl
  | @keep b t t' c h ih =>
    rw [ih fun s u r v ht he ↦ hE (c :: s) u r v (by simp [ht]) (by simpa using he)]
  | @edit b u v r t' he h ih =>
    rw [hE [] u v r rfl he]
    rw [ih fun s u' r' v' ht he' ↦ hE (u ++ s) u' r' v' (by simp [ht]) (by simpa using he')]

theorem Scans.edits {E : (b u r v : Text) → Prop} {f : Match → Text}
    (hf : ∀ m : Match, m.Of p → f m = m.whole ∨ E m.before m.whole m.after (f m))
    {ps : List Piece} (h : Scans p b t ps) :
    Edits E b t (ps.flatMap fun | .plain c => [c] | .found m => f m) := by
  induction h with
  | nil b => exact .nil b
  | plain _ _ ih => exact .keep ih
  | @found m ps hm _ ih =>
    rw [List.flatMap_cons]
    rcases hf m hm with he | he
    · simp only [he]
      exact ih.keep_append _ _
    · exact .edit he ih

theorem edits_replaceAll {E : (b u r v : Text) → Prop} {f : Match → Text} (hp : p.steady)
    (hs : p.takesSome)
    (hf : ∀ m : Match, m.Of p → f m = m.whole ∨ E m.before m.whole m.after (f m)) (t : Text) :
    Edits E [] t (p.replaceAll f t) := (scans_pieces hp hs t).edits hf

theorem replaceAll_eq_self {f : Match → Text} (hp : p.steady) (hs : p.takesSome)
    (h : ∀ s u r gs, t = s ++ (u ++ r) → ¬ p.Takes s.reverse u r gs) : p.replaceAll f t = t := by
  have hedits : Edits (fun b u r _ ↦ ∃ gs, p.Takes b u r gs) [] t (p.replaceAll f t) := by
    refine edits_replaceAll hp hs (fun m hm ↦ .inr ?_) t
    obtain ⟨gs, htakes, -⟩ := hm
    exact ⟨gs, htakes⟩
  refine hedits.eq_of_forall fun s u r v ht htakes ↦ ?_
  obtain ⟨gs, htakes⟩ := htakes
  exact absurd (by simpa using htakes) (h s u r gs ht)

theorem replaceFirst_eq (hp : p.steady) (f : Match → Text) (t : Text) :
    (p.search? t = none ∧ p.replaceFirst f t = t) ∨
      ∃ m, m.Of p ∧ p.search? t = some m ∧ t = m.before.reverse ++ (m.whole ++ m.after) ∧
        p.replaceFirst f t = m.before.reverse ++ (f m ++ m.after) := by
  cases h : p.search? t with
  | none => exact .inl ⟨rfl, by simp [replaceFirst, h]⟩
  | some m =>
    obtain ⟨hm, ht⟩ := of_search? hp h
    exact .inr ⟨m, hm, rfl, ht, by simp [replaceFirst, h]⟩

section Count

variable {ps : List Piece} {c : Char} {f : Match → Text}

theorem Scans.count_le (h : Scans p b t ps)
    (hf : ∀ m : Match, m.Of p → (f m).count c ≤ m.whole.count c) :
    (ps.flatMap fun | .plain c => [c] | .found m => f m).count c ≤ t.count c := by
  induction h with
  | nil => simp
  | plain _ _ ih => simpa [List.count_cons] using ih
  | @found m _ hm _ ih =>
    rw [List.flatMap_cons, List.count_append, List.count_append]
    exact Nat.add_le_add (hf m hm) ih

/-- Where no match gains a character, the text keeps all of them just when every match does. -/
theorem Scans.count_eq_iff (h : Scans p b t ps)
    (hf : ∀ m : Match, m.Of p → (f m).count c ≤ m.whole.count c) :
    (ps.flatMap fun | .plain c => [c] | .found m => f m).count c = t.count c ↔
      ∀ m, .found m ∈ ps → (f m).count c = m.whole.count c := by
  induction h with
  | nil => simp
  | plain _ _ ih => simpa [List.count_cons] using ih
  | @found m ps hm hrest ih =>
    have hfound := hf m hm
    have hle := hrest.count_le hf
    simp only [List.flatMap_cons, List.count_append, List.mem_cons, Piece.found.injEq,
      forall_eq_or_imp, ← ih]
    omega

end Count

end Pattern

end DiagramRepair
