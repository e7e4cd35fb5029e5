import DiagramRepair.Proofs.Pattern.Search

namespace DiagramRepair.Pattern

variable {α : Type} {p : Pattern} {b u r t : Text} {pl : Place} {k : Place → Option α} {x : α}

theorem run_eq_none (hp : p.steady) (h : p.Free pl.before pl.after) : p.run pl k = none := by
  rw [Option.eq_none_iff_forall_ne_some]
  intro x hx
  obtain ⟨u, r, cs, hafter, htakes, -⟩ := (sound_and_complete p hp).1 hx
  exact h u r _ hafter htakes

theorem run_of_unique (hp : p.steady) (hg : p.groupless) (hafter : pl.after = u ++ r)
    (h : p.Takes pl.before u r [])
    (hunique : ∀ u' r', u ++ r = u' ++ r' → p.Takes pl.before u' r' [] → u' = u) :
    p.run pl k = k ⟨u.reverse ++ pl.before, r, pl.captures⟩ := by
  have hsound : ∀ {x}, p.run pl k = some x →
      k ⟨u.reverse ++ pl.before, r, pl.captures⟩ = some x := by
    intro x hx
    obtain ⟨u', r', cs, hafter', htakes, hk⟩ := (sound_and_complete p hp).1 hx
    have hcs := htakes.groups_eq_nil hg
    rw [hcs] at htakes
    rw [List.map_eq_nil_iff.mp hcs] at hk
    have heq := hafter.symm.trans hafter'
    obtain rfl := hunique u' r' heq htakes
    rwa [List.append_cancel_left heq]
  cases hk : k ⟨u.reverse ++ pl.before, r, pl.captures⟩ with
  | none =>
    rw [Option.eq_none_iff_forall_ne_some]
    intro x hx
    simp [hsound hx] at hk
  | some x =>
    have hsome : (p.run pl k).isSome := by
      refine (sound_and_complete p hp).2 hafter h fun cs hcs ↦ ?_
      rw [List.map_eq_nil_iff.mp hcs, List.nil_append, hk]
      rfl
    obtain ⟨y, hy⟩ := Option.isSome_iff_exists.mp hsome
    rw [hy, ← hsound hy, hk]

theorem rounds_lazy_one {cls : CharClass} (fuel : Text) (hfuel : u.length ≤ fuel.length)
    (hu : ∀ c ∈ u, cls c) {cs : List (String × Text × Text)}
    (hearly : ∀ v w, u = v ++ w → w ≠ [] → k ⟨v.reverse ++ b, w ++ r, cs⟩ = none)
    (hk : k ⟨u.reverse ++ b, r, cs⟩ = some x) :
    rounds false (run (one cls)) fuel ⟨b, u ++ r, cs⟩ k = some x := by
  induction u generalizing b fuel with
  | nil =>
    have hstop : k ⟨b, r, cs⟩ = some x := hk
    cases fuel <;> simp [rounds, hstop]
  | cons c u ih =>
    cases fuel with
    | nil => simp at hfuel
    | cons d fuel =>
      have hgo := hearly [] (c :: u) rfl (by simp)
      have hrest := ih fuel (b := c :: b) (by simpa using hfuel) (fun e he ↦ hu e (by simp [he]))
        (fun v w huv hw ↦ by simpa using hearly (c :: v) w (by simp [huv]) hw) (by simpa using hk)
      simp only [List.reverse_nil, List.nil_append, List.cons_append] at hgo
      have hround : ∀ k' : Place → Option α,
          (one cls).run ⟨b, c :: (u ++ r), cs⟩ k' = k' ⟨c :: b, u ++ r, cs⟩ := by
        simp [run, hu c (by simp)]
      simp only [List.cons_append, rounds, hgo, hround, hrest]
      rfl

/-- A lazy repetition takes a text if the run could not go on anywhere before its end. -/
theorem run_manyLazy_one {cls : CharClass} (hafter : pl.after = u ++ r) (hu : ∀ c ∈ u, cls c)
    (hearly : ∀ v w, u = v ++ w → w ≠ [] → k ⟨v.reverse ++ pl.before, w ++ r, pl.captures⟩ = none)
    (hk : k ⟨u.reverse ++ pl.before, r, pl.captures⟩ = some x) :
    (manyLazy (one cls)).run pl k = some x := by
  obtain ⟨b, t, cs⟩ := pl
  simp only at hafter
  subst hafter
  exact rounds_lazy_one (u ++ r) (by simp) hu hearly hk

def TakesOne (q : Pattern) : Prop := ∀ {b u r : Text} {gs : Groups}, q.Takes b u r gs → u.length = 1

theorem of_rounds_lazy {q : Pattern} (hq : q.steady) (hg : q.groupless) (hone : q.TakesOne)
    (fuel : Text) (h : rounds false q.run fuel pl k = some x) :
    ∃ u r, pl.after = u ++ r ∧ Rounds q.Takes pl.before u r [] ∧
      k ⟨u.reverse ++ pl.before, r, pl.captures⟩ = some x ∧
      ∀ v w, u = v ++ w → w ≠ [] → k ⟨v.reverse ++ pl.before, w ++ r, pl.captures⟩ = none := by
  induction fuel generalizing pl with
  | nil => exact ⟨[], pl.after, rfl, .nil _ _, h, by simp⟩
  | cons d fuel ih =>
    simp only [rounds, Option.orElse_eq_orElse, Option.orElse_eq_or, Option.or_eq_some_iff] at h
    rcases h with h | ⟨hnone, h⟩
    · exact ⟨[], pl.after, rfl, .nil _ _, h, by simp⟩
    · obtain ⟨b, t, cs₀⟩ := pl
      obtain ⟨u, r, cs, ht, htakes, h⟩ := (sound_and_complete q hq).1 h
      obtain rfl := List.map_eq_nil_iff.mp (htakes.groups_eq_nil hg)
      obtain ⟨c, rfl⟩ := List.length_eq_one_iff.mp (hone htakes)
      obtain ⟨v, r', hr, hrounds, hk, hearly⟩ := ih h
      simp only at ht hr
      subst hr ht
      refine ⟨c :: v, r', rfl, .cons htakes hrounds, by simpa using hk, fun v₁ v₂ hv hne ↦ ?_⟩
      cases v₁ with
      | nil =>
        obtain rfl : c :: v = v₂ := hv
        exact hnone
      | cons e v₁ =>
        obtain ⟨rfl, rfl⟩ := List.cons.inj hv
        simpa using hearly v₁ v₂ rfl hne

theorem matchAt?_append_assoc (p q q' : Pattern) (b t : Text) :
    (p ++ q ++ q').matchAt? b t = (p ++ (q ++ q')).matchAt? b t := rfl

/-- A match around a lazy repetition: from no earlier place of what was repeated could the rest of
the pattern go on. -/
theorem of_matchAt?_lazy {q q' : Pattern} {name : String} {m : Match} (hp : p.steady)
    (hq : q.steady) (hq' : q'.steady) (hg : q.groupless) (hone : q.TakesOne)
    (h : (p ++ group name (manyLazy q) ++ q').matchAt? b t = some m) :
    ∃ u v w gs gs', m.whole = u ++ (v ++ w) ∧
      (∀ name', m.group? name' = (gs' ++ (name, v) :: gs).lookup name') ∧
      p.Takes b u (v ++ (w ++ m.after)) gs ∧
      (manyLazy q).Takes (u.reverse ++ b) v (w ++ m.after) [] ∧
      q'.Takes (v.reverse ++ (u.reverse ++ b)) w m.after gs' ∧
      ∀ v₁ v₂, v = v₁ ++ v₂ → v₂ ≠ [] →
        q'.Free (v₁.reverse ++ (u.reverse ++ b)) (v₂ ++ (w ++ m.after)) := by
  change p.run ⟨b, t, []⟩ (fun s ↦ (manyLazy q).run s fun s' ↦ q'.run
    { s' with captures := (name, s.after, s'.after) :: s'.captures } fun s'' ↦
      some ⟨b, t.take (t.length - s''.after.length), s''.after, s''.captures⟩) = some m at h
  obtain ⟨u, r, cs, ht, hu, h⟩ := (sound_and_complete p hp).1 h
  obtain ⟨v, r', hr, hv, h, hearly⟩ := of_rounds_lazy hq hg hone _ h
  obtain ⟨w, r'', cs', hr', hw, h⟩ := (sound_and_complete q' hq').1 h
  simp only at ht hr hr' hu hv hw hearly h
  subst ht hr hr'
  obtain rfl := Option.some.inj h
  refine ⟨u, v, w, cs.map captured, cs'.map captured, ?_, ?_, hu, hv, hw, ?_⟩
  · have htext : u ++ (v ++ (w ++ r'')) = u ++ (v ++ w) ++ r'' := by simp
    simp only
    rw [htext, List.length_append, Nat.add_sub_cancel, List.take_left]
  · intro name'
    have hmap : cs'.map captured ++ (name, v) :: cs.map captured =
        (cs' ++ (name, v ++ (w ++ r''), w ++ r'') :: cs).map captured := by
      simp [captured]
    rw [hmap, lookup_captured, Match.group?, List.append_nil]
  · intro v₁ v₂ hv₁ hne u' r' gs heq htakes
    refine Option.not_isSome_iff_eq_none.mpr (hearly v₁ v₂ hv₁ hne) ?_
    exact (sound_and_complete q' hq').2 heq htakes fun _ _ ↦ rfl

theorem rounds_greedy_one {cls : CharClass} (fuel : Text) (hfuel : u.length ≤ fuel.length)
    (hu : ∀ c ∈ u, cls c) (hr : ∀ c ∈ r.head?, cls c = false) {cs : List (String × Text × Text)}
    (hk : k ⟨u.reverse ++ b, r, cs⟩ = some x) :
    rounds true (run (one cls)) fuel ⟨b, u ++ r, cs⟩ k = some x := by
  induction u generalizing b fuel with
  | nil =>
    have hstop : k ⟨b, r, cs⟩ = some x := hk
    have hround : ∀ k' : Place → Option α, (one cls).run ⟨b, r, cs⟩ k' = none := by
      intro k'
      cases r with
      | nil => rfl
      | cons c r => simp [run, hr c rfl]
    cases fuel <;> simp [rounds, hstop, hround]
  | cons c u ih =>
    cases fuel with
    | nil => simp at hfuel
    | cons d fuel =>
      have hrest := ih fuel (b := c :: b) (by simpa using hfuel) (fun e he ↦ hu e (by simp [he]))
        (by simpa using hk)
      have hround : ∀ k' : Place → Option α,
          (one cls).run ⟨b, c :: (u ++ r), cs⟩ k' = k' ⟨c :: b, u ++ r, cs⟩ := by
        simp [run, hu c (by simp)]
      simp only [List.cons_append, rounds, hround, hrest]
      rfl

/-- A greedy repetition takes the whole run of its class if the rest goes on behind it. -/
theorem run_many_one {cls : CharClass} (hafter : pl.after = u ++ r) (hu : ∀ c ∈ u, cls c)
    (hr : ∀ c ∈ r.head?, cls c = false)
    (hk : k ⟨u.reverse ++ pl.before, r, pl.captures⟩ = some x) :
    (many (one cls)).run pl k = some x := by
  obtain ⟨b, t, cs⟩ := pl
  simp only at hafter
  subst hafter
  exact rounds_greedy_one (u ++ r) (by simp) hu hr hk

theorem run_many1_one {cls : CharClass} (hafter : pl.after = u ++ r) (hne : u ≠ [])
    (hu : ∀ c ∈ u, cls c) (hr : ∀ c ∈ r.head?, cls c = false)
    (hk : k ⟨u.reverse ++ pl.before, r, pl.captures⟩ = some x) :
    (many1 (one cls)).run pl k = some x := by
  obtain ⟨b, t, cs⟩ := pl
  obtain ⟨c, u, rfl⟩ := List.exists_cons_of_ne_nil hne
  simp only at hafter
  subst hafter
  have hrest : (many (one cls)).run ⟨c :: b, u ++ r, cs⟩ k = some x :=
    run_many_one rfl (fun d hd ↦ hu d (by simp [hd])) hr (by simpa using hk)
  change (if cls c then (many (one cls)).run ⟨c :: b, u ++ r, cs⟩ k else none) = some x
  rw [if_pos (hu c (by simp)), hrest]

def findFrom (p : Pattern) (b t : Text) : List Match :=
  (p.piecesFrom 0 b t).filterMap fun
    | .plain _ => none
    | .found m => some m

theorem findFrom_of_matchAt? {m : Match} (h : p.matchAt? b (u ++ r) = some m) (hm : m.whole = u)
    (hu : u ≠ []) : p.findFrom b (u ++ r) = m :: p.findFrom (u.reverse ++ b) r := by
  obtain ⟨c, u, rfl⟩ := List.exists_cons_of_ne_nil hu
  rw [List.cons_append] at h
  have hskip := piecesFrom_skip p u.length (c :: b) u r rfl
  simp [findFrom, piecesFrom, h, hm, hskip]

theorem findFrom_of_none {c : Char} (h : p.matchAt? b (c :: t) = none) :
    p.findFrom b (c :: t) = p.findFrom (c :: b) t := by
  simp [findFrom, piecesFrom, h]

def replaceFrom (p : Pattern) (f : Match → Text) (b t : Text) : Text :=
  (p.piecesFrom 0 b t).flatMap fun
    | .plain c => [c]
    | .found m => f m

variable {f : Match → Text}

theorem replaceFrom_of_free {c : Char} (hp : p.steady) (h : p.Free b (c :: t)) :
    p.replaceFrom f b (c :: t) = c :: p.replaceFrom f (c :: b) t := by
  have hnone := (matchAt?_eq_none_iff hp).mpr h
  simp [replaceFrom, piecesFrom, hnone]

theorem replaceFrom_of_matchAt? {m : Match} (h : p.matchAt? b (u ++ r) = some m)
    (hm : m.whole = u) (hu : u ≠ []) :
    p.replaceFrom f b (u ++ r) = f m ++ p.replaceFrom f (u.reverse ++ b) r := by
  obtain ⟨c, u, rfl⟩ := List.exists_cons_of_ne_nil hu
  rw [List.cons_append] at h
  have hskip := piecesFrom_skip p u.length (c :: b) u r rfl
  simp [replaceFrom, piecesFrom, h, hm, hskip]

theorem replaceFrom_append_of_free (hp : p.steady)
    (h : ∀ s v, u = s ++ v → v ≠ [] → p.Free (s.reverse ++ b) (v ++ r)) :
    p.replaceFrom f b (u ++ r) = u ++ p.replaceFrom f (u.reverse ++ b) r := by
  induction u generalizing b with
  | nil => rfl
  | cons c u ih =>
    have hrest := ih fun s v hu hv ↦ by simpa using h (c :: s) v (by simp [hu]) hv
    have hfirst : p.Free b (c :: (u ++ r)) := h [] (c :: u) rfl (by simp)
    rw [List.cons_append, replaceFrom_of_free hp hfirst, hrest]
    simp

def ReplacesBehind (p : Pattern) (f : Match → Text) (c : Char) (t t' : Text) : Prop := ∀ u b,
  c ∉ u → p.replaceFrom f b (u ++ t) = u ++ t'

theorem ReplacesBehind.append {c : Char} {t' : Text} (hu : c ∉ u) (h : p.ReplacesBehind f c t t') :
    p.ReplacesBehind f c (u ++ t) (u ++ t') := by
  intro s b hs
  rw [← List.append_assoc, ← List.append_assoc]
  exact h (s ++ u) b (List.not_mem_append hs hu)

/-- A text behind `b` and what becomes of it: its matches are replaced, and at no other character
does a match start. -/
inductive Replaces (p : Pattern) (f : Match → Text) : (b t t' : Text) → Prop
  | nil (b : Text) : Replaces p f b [] []
  | plain {b t t' : Text} {c : Char} :
      p.Free b (c :: t) → Replaces p f (c :: b) t t' → Replaces p f b (c :: t) (c :: t')
  | found {m : Match} {t' : Text} :
      m.Of p → Replaces p f (m.whole.reverse ++ m.before) m.after t' →
      Replaces p f m.before (m.whole ++ m.after) (f m ++ t')

theorem replaces_replaceAll (hp : p.steady) (hs : p.takesSome) (f : Match → Text) (t : Text) :
    p.Replaces f [] t (p.replaceAll f t) := by
  have hscans : ∀ {b t ps}, p.Scans b t ps →
      p.Replaces f b t (ps.flatMap fun | .plain c => [c] | .found m => f m) := by
    intro b t ps h
    induction h with
    | nil b => exact .nil b
    | plain hfree _ ih => exact .plain hfree ih
    | found hm _ ih => exact .found hm ih
  exact hscans (scans_pieces hp hs t)

theorem Replaces.edits {E : (b u r v : Text) → Prop} {t' : Text}
    (hf : ∀ m : Match, m.Of p → f m = m.whole ∨ E m.before m.whole m.after (f m))
    (h : p.Replaces f b t t') : Edits E b t t' := by
  induction h with
  | nil b => exact .nil b
  | plain _ _ ih => exact .keep ih
  | @found m t' hm _ ih =>
    rcases hf m hm with he | he
    · rw [he]
      exact ih.keep_append _ _
    · exact .edit he ih

end DiagramRepair.Pattern
