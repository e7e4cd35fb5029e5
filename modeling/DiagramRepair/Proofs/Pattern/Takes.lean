import DiagramRepair.Pattern.Search

namespace DiagramRepair.Pattern

abbrev Groups := List (String × Text)

inductive Rounds (T : Text → Text → Text → Groups → Prop) : Text → Text → Text → Groups → Prop
  | nil (b r : Text) : Rounds T b [] r []
  | cons {b u v r : Text} {g g' : Groups} :
      T b u (v ++ r) g → Rounds T (u.reverse ++ b) v r g' → Rounds T b (u ++ v) r (g' ++ g)

/-- The pattern can take `u` where `b` stands before it, nearest character first, and `r` after. -/
def Takes : Pattern → (b u r : Text) → Groups → Prop
  | empty, _, u, _, gs => u = [] ∧ gs = []
  | one cls, _, u, _, gs => ∃ c, cls c ∧ u = [c] ∧ gs = []
  | seq p q, b, u, r, gs => ∃ v w g g', u = v ++ w ∧ gs = g' ++ g ∧
      p.Takes b v (w ++ r) g ∧ q.Takes (v.reverse ++ b) w r g'
  | alt p q, b, u, r, gs => p.Takes b u r gs ∨ q.Takes b u r gs
  | star _ p, b, u, r, gs => Rounds p.Takes b u r gs
  | group name p, b, u, r, gs => ∃ g, gs = (name, u) :: g ∧ p.Takes b u r g
  | look wanted p, b, u, r, gs => u = [] ∧ gs = [] ∧
      (wanted = true ↔ ∃ v w g, r = v ++ w ∧ p.Takes b v w g)
  | place test, b, u, r, gs => u = [] ∧ gs = [] ∧ test b.head? r

def takesSome : Pattern → Bool
  | empty | star _ _ | look _ _ | place _ => false
  | one _ => true
  | seq p q => p.takesSome || q.takesSome
  | alt p q => p.takesSome && q.takesSome
  | group _ p => p.takesSome

def steady : Pattern → Bool
  | empty | one _ | place _ => true
  | seq p q | alt p q => p.steady && q.steady
  | star _ p => p.takesSome && p.steady
  | group _ p | look _ p => p.steady

def groupless : Pattern → Bool
  | empty | one _ | place _ => true
  | seq p q | alt p q => p.groupless && q.groupless
  | star _ p => p.groupless
  | group _ _ => false
  | look _ _ => true

def shuns (c : Char) : Pattern → Bool
  | empty | look _ _ | place _ => true
  | one cls => !cls c
  | seq p q | alt p q => p.shuns c && q.shuns c
  | star _ p | group _ p => p.shuns c

def selfContained : Pattern → Bool
  | empty | one _ => true
  | seq p q | alt p q => p.selfContained && q.selfContained
  | star _ p | group _ p => p.selfContained
  | look _ _ | place _ => false

theorem Takes.ne_nil {p : Pattern} {b u r : Text} {gs : Groups} (h : p.Takes b u r gs)
    (hp : p.takesSome) : u ≠ [] := by
  induction p generalizing b u r gs with
  | empty | star | look | place => simp [takesSome] at hp
  | one cls =>
    obtain ⟨c, -, rfl, -⟩ := h
    simp
  | seq p q ihp ihq =>
    obtain ⟨v, w, g, g', rfl, -, hv, hw⟩ := h
    rcases Bool.or_eq_true _ _ |>.mp hp with hp | hq
    · simp [ihp hv hp]
    · simp [ihq hw hq]
  | alt p q ihp ihq =>
    obtain ⟨hp, hq⟩ := Bool.and_eq_true _ _ |>.mp hp
    rcases h with h | h
    · exact ihp h hp
    · exact ihq h hq
  | group name p ih =>
    obtain ⟨g, -, h⟩ := h
    exact ih h hp

theorem Takes.groups_eq_nil {p : Pattern} {b u r : Text} {gs : Groups} (h : p.Takes b u r gs)
    (hp : p.groupless) : gs = [] := by
  induction p generalizing b u r gs with
  | empty => exact h.2
  | place | look => exact h.2.1
  | one cls =>
    obtain ⟨c, -, -, rfl⟩ := h
    rfl
  | seq p q ihp ihq =>
    obtain ⟨hp, hq⟩ := Bool.and_eq_true _ _ |>.mp hp
    obtain ⟨v, w, g, g', -, rfl, hv, hw⟩ := h
    rw [ihp hv hp, ihq hw hq, List.append_nil]
  | alt p q ihp ihq =>
    obtain ⟨hp, hq⟩ := Bool.and_eq_true _ _ |>.mp hp
    rcases h with h | h
    · exact ihp h hp
    · exact ihq h hq
  | star greedy p ih =>
    rw [Takes] at h
    induction h with
    | nil => rfl
    | cons hu hv ihv => rw [ih hu hp, ihv, List.append_nil]
  | group name p => simp [groupless] at hp

theorem Takes.not_mem {p : Pattern} {b u r : Text} {gs : Groups} {c : Char} (h : p.Takes b u r gs)
    (hp : p.shuns c) : c ∉ u := by
  induction p generalizing b u r gs with
  | empty | look | place => simp [h.1]
  | one cls =>
    obtain ⟨d, hd, rfl, -⟩ := h
    rw [List.mem_singleton]
    rintro rfl
    simp [shuns, hd] at hp
  | seq p q ihp ihq =>
    obtain ⟨hp, hq⟩ := Bool.and_eq_true _ _ |>.mp hp
    obtain ⟨v, w, g, g', rfl, -, hv, hw⟩ := h
    simp [ihp hv hp, ihq hw hq]
  | alt p q ihp ihq =>
    obtain ⟨hp, hq⟩ := Bool.and_eq_true _ _ |>.mp hp
    rcases h with h | h
    · exact ihp h hp
    · exact ihq h hq
  | star greedy p ih =>
    induction h with
    | nil => simp
    | cons hu _ ihv => simp [ih hu hp, ihv]
  | group name p ih =>
    obtain ⟨g, -, h⟩ := h
    exact ih h hp

theorem Takes.anywhere {p : Pattern} {b u r : Text} {gs : Groups} (h : p.Takes b u r gs)
    (hp : p.selfContained) (b' r' : Text) : p.Takes b' u r' gs := by
  induction p generalizing b u r gs b' r' with
  | empty | one => exact h
  | look | place => simp [selfContained] at hp
  | seq p q ihp ihq =>
    obtain ⟨hp, hq⟩ := Bool.and_eq_true _ _ |>.mp hp
    obtain ⟨v, w, g, g', rfl, rfl, hv, hw⟩ := h
    exact ⟨v, w, g, g', rfl, rfl, ihp hv hp _ _, ihq hw hq _ _⟩
  | alt p q ihp ihq =>
    obtain ⟨hp, hq⟩ := Bool.and_eq_true _ _ |>.mp hp
    rcases h with h | h
    · exact .inl (ihp h hp _ _)
    · exact .inr (ihq h hq _ _)
  | star greedy p ih =>
    rw [Takes] at h ⊢
    induction h generalizing b' with
    | nil => exact .nil _ _
    | cons hu hv ihv => exact .cons (ih hu hp _ _) (ihv _)
  | group name p ih =>
    obtain ⟨g, rfl, h⟩ := h
    exact ⟨g, rfl, ih h hp _ _⟩

def captured : String × Text × Text → String × Text
  | (name, start, stop) => (name, start.take (start.length - stop.length))

def Sound (p : Pattern) : Prop :=
  ∀ {α : Type} {s : Place} {k : Place → Option α} {x : α}, p.run s k = some x →
    ∃ u r cs, s.after = u ++ r ∧ p.Takes s.before u r (cs.map captured) ∧
      k ⟨u.reverse ++ s.before, r, cs ++ s.captures⟩ = some x

def Complete (p : Pattern) : Prop :=
  ∀ {α : Type} {s : Place} {k : Place → Option α} {u r : Text} {gs : Groups},
    s.after = u ++ r → p.Takes s.before u r gs →
    (∀ cs : List (String × Text × Text), cs.map captured = gs →
      (k ⟨u.reverse ++ s.before, r, cs ++ s.captures⟩).isSome) → (p.run s k).isSome

theorem sound_rounds {p : Pattern} (hp : p.Sound) {α : Type} (greedy : Bool) (fuel : Text)
    {s : Place} {k : Place → Option α} {x : α}
    (h : rounds greedy p.run fuel s k = some x) :
    ∃ u r cs, s.after = u ++ r ∧ Rounds p.Takes s.before u r (cs.map captured) ∧
      k ⟨u.reverse ++ s.before, r, cs ++ s.captures⟩ = some x := by
  induction fuel generalizing s x with
  | nil => exact ⟨[], s.after, [], rfl, .nil _ _, h⟩
  | cons c fuel ih =>
    have hround : ∀ y, p.run s (fun s' ↦ rounds greedy p.run fuel s' k) = some y →
        ∃ u r cs, s.after = u ++ r ∧ Rounds p.Takes s.before u r (cs.map captured) ∧
          k ⟨u.reverse ++ s.before, r, cs ++ s.captures⟩ = some y := by
      intro y hy
      obtain ⟨u, r, cs, hs, ht, hk⟩ := hp hy
      obtain ⟨v, r', cs', hr, hv, hk'⟩ := ih hk
      simp only at hr hv hk'
      subst hr
      refine ⟨u ++ v, r', cs' ++ cs, by simp [hs], ?_, ?_⟩
      · rw [List.map_append]
        exact .cons ht hv
      · simpa using hk'
    cases greedy with
    | true =>
      simp only [rounds, Option.orElse_eq_orElse, Option.orElse_eq_or, Option.or_eq_some_iff] at h
      rcases h with h | ⟨-, h⟩
      · exact hround x h
      · exact ⟨[], s.after, [], rfl, .nil _ _, h⟩
    | false =>
      simp only [rounds, Option.orElse_eq_orElse, Option.orElse_eq_or, Option.or_eq_some_iff] at h
      rcases h with h | ⟨-, h⟩
      · exact ⟨[], s.after, [], rfl, .nil _ _, h⟩
      · exact hround x h

theorem complete_rounds {p : Pattern} (hp : p.Complete) (hsome : p.takesSome) {α : Type}
    (greedy : Bool) {b u r : Text} {gs : Groups} (h : Rounds p.Takes b u r gs) (fuel : Text)
    (hfuel : u.length ≤ fuel.length) {cs₀ : List (String × Text × Text)} {k : Place → Option α}
    (hk : ∀ cs : List (String × Text × Text), cs.map captured = gs →
      (k ⟨u.reverse ++ b, r, cs ++ cs₀⟩).isSome) :
    (rounds greedy p.run fuel ⟨b, u ++ r, cs₀⟩ k).isSome := by
  induction h generalizing fuel cs₀ with
  | nil b r =>
    have hstop : (k ⟨b, r, cs₀⟩).isSome := hk [] rfl
    cases fuel with
    | nil => exact hstop
    | cons c fuel => cases greedy <;> simp_all [rounds]
  | @cons b u v r g g' hu hv ih =>
    -- A round takes at least one character, so the fuel is not used up before the rounds are.
    have hpos := List.length_pos_iff.mpr (hu.ne_nil hsome)
    cases fuel with
    | nil =>
      simp only [List.length_append, List.length_nil] at hfuel
      omega
    | cons c fuel =>
      have hround : (p.run ⟨b, u ++ v ++ r, cs₀⟩
          (fun s' ↦ rounds greedy p.run fuel s' k)).isSome := by
        refine hp (u := u) (r := v ++ r) (by simp) hu (fun cs hcs ↦ ih fuel ?_ (fun cs' hcs' ↦ ?_))
        · simp only [List.length_append, List.length_cons] at hfuel
          omega
        · simpa using hk (cs' ++ cs) (by simp [hcs, hcs'])
      cases greedy <;> simp_all [rounds]

theorem sound_empty : empty.Sound :=
  fun {_ s _ _} h ↦ ⟨[], s.after, [], rfl, ⟨rfl, rfl⟩, h⟩

theorem complete_empty : empty.Complete := by
  rintro α ⟨b, t, cs₀⟩ k u r gs rfl ⟨rfl, rfl⟩ hk
  exact hk [] rfl

theorem sound_one (cls : CharClass) : (one cls).Sound := by
  intro α s k x h
  rw [run] at h
  split at h
  · simp at h
  · rename_i c t hc
    split at h
    · rename_i hcls
      exact ⟨[c], t, [], hc, ⟨c, hcls, rfl, rfl⟩, by simpa using h⟩
    · simp at h

theorem complete_one (cls : CharClass) : (one cls).Complete := by
  rintro α s k u r gs hs ⟨c, hc, rfl, rfl⟩ hk
  rw [run, hs]
  simpa [hc] using hk [] rfl

theorem sound_seq {p q : Pattern} (hp : p.Sound) (hq : q.Sound) : (seq p q).Sound := by
  intro α s k x h
  change p.run s (fun s' ↦ q.run s' k) = some x at h
  obtain ⟨u, r, cs, hs, ht, hk⟩ := hp h
  obtain ⟨v, r', cs', hr, ht', hk'⟩ := hq hk
  simp only at hr ht' hk'
  subst hr
  exact ⟨u ++ v, r', cs' ++ cs, by simp [hs], ⟨u, v, _, _, rfl, by simp, ht, ht'⟩,
    by simpa using hk'⟩

theorem complete_seq {p q : Pattern} (hp : p.Complete) (hq : q.Complete) :
    (seq p q).Complete := by
  rintro α s k u r gs hs ⟨v, w, g, g', rfl, rfl, hv, hw⟩ hk
  change (p.run s fun s' ↦ q.run s' k).isSome
  refine hp (by simpa using hs) hv (fun cs hcs ↦ hq rfl hw (fun cs' hcs' ↦ ?_))
  simpa using hk (cs' ++ cs) (by simp [hcs, hcs'])

theorem sound_alt {p q : Pattern} (hp : p.Sound) (hq : q.Sound) : (alt p q).Sound := by
  intro α s k x h
  change (p.run s k <|> q.run s k) = some x at h
  simp only [Option.orElse_eq_orElse, Option.orElse_eq_or, Option.or_eq_some_iff] at h
  rcases h with h | ⟨-, h⟩
  · obtain ⟨u, r, cs, hs, ht, hk⟩ := hp h
    exact ⟨u, r, cs, hs, .inl ht, hk⟩
  · obtain ⟨u, r, cs, hs, ht, hk⟩ := hq h
    exact ⟨u, r, cs, hs, .inr ht, hk⟩

theorem complete_alt {p q : Pattern} (hp : p.Complete) (hq : q.Complete) :
    (alt p q).Complete := by
  rintro α s k u r gs hs (ht | ht) hk
  all_goals change (p.run s k <|> q.run s k).isSome
  · have h := hp hs ht hk
    simp_all
  · have h := hq hs ht hk
    simp_all

theorem sound_star {p : Pattern} (hp : p.Sound) (greedy : Bool) : (star greedy p).Sound :=
  fun {_ s _ _} h ↦ sound_rounds hp greedy s.after h

theorem complete_star {p : Pattern} (hp : p.Complete) (hsome : p.takesSome) (greedy : Bool) :
    (star greedy p).Complete := by
  rintro α ⟨b, t, cs₀⟩ k u r gs hs ht hk
  simp only at hs ht hk
  subst hs
  exact complete_rounds hp hsome greedy ht _ (by simp) hk

theorem sound_group {p : Pattern} (hp : p.Sound) (name : String) : (group name p).Sound := by
  intro α s k x h
  change (p.run s fun s' ↦ k { s' with captures := (name, s.after, s'.after) :: s'.captures }) =
    some x at h
  obtain ⟨u, r, cs, hs, ht, hk⟩ := hp h
  refine ⟨u, r, (name, s.after, r) :: cs, hs, ⟨_, ?_, ht⟩, hk⟩
  simp [captured, hs]

theorem complete_group {p : Pattern} (hp : p.Complete) (name : String) :
    (group name p).Complete := by
  rintro α s k u r gs hs ⟨g, rfl, ht⟩ hk
  change Option.isSome (p.run s fun s' ↦
    k { s' with captures := (name, s.after, s'.after) :: s'.captures })
  refine hp hs ht (fun cs hcs ↦ ?_)
  exact hk ((name, s.after, r) :: cs) (by simp [captured, hs, hcs])

theorem isSome_run_iff {p : Pattern} (hp : p.Sound ∧ p.Complete) (s : Place) :
    (p.run s some).isSome ↔ ∃ v w g, s.after = v ++ w ∧ p.Takes s.before v w g := by
  constructor
  · intro h
    obtain ⟨x, hx⟩ := Option.isSome_iff_exists.mp h
    obtain ⟨u, r, cs, hs, ht, -⟩ := hp.1 hx
    exact ⟨u, r, _, hs, ht⟩
  · rintro ⟨v, w, g, hs, ht⟩
    exact hp.2 hs ht (fun _ _ ↦ rfl)

theorem sound_look {p : Pattern} (hp : p.Sound ∧ p.Complete) (wanted : Bool) :
    (look wanted p).Sound := by
  intro α s k x h
  change (if (p.run s some).isSome == wanted then k s else none) = some x at h
  split at h
  · rename_i hw
    refine ⟨[], s.after, [], rfl, ⟨rfl, rfl, ?_⟩, by simpa using h⟩
    rw [← isSome_run_iff hp, ← beq_iff_eq.mp hw]
  · simp at h

theorem complete_look {p : Pattern} (hp : p.Sound ∧ p.Complete) (wanted : Bool) :
    (look wanted p).Complete := by
  rintro α ⟨b, t, cs₀⟩ k u r gs rfl ⟨rfl, rfl, hw⟩ hk
  have hrun : (p.run ⟨b, r, cs₀⟩ some).isSome = wanted := by
    rw [Bool.eq_iff_iff, isSome_run_iff hp, hw]
  change (if (p.run ⟨b, r, cs₀⟩ some).isSome == wanted then k ⟨b, r, cs₀⟩ else none).isSome
  simpa [hrun] using hk [] rfl

theorem sound_place (test : Option Char → Text → Bool) : (place test).Sound := by
  intro α s k x h
  change (if test s.before.head? s.after then k s else none) = some x at h
  split at h
  · rename_i ht
    exact ⟨[], s.after, [], rfl, ⟨rfl, rfl, ht⟩, by simpa using h⟩
  · simp at h

theorem complete_place (test : Option Char → Text → Bool) : (place test).Complete := by
  rintro α ⟨b, t, cs₀⟩ k u r gs rfl ⟨rfl, rfl, ht⟩ hk
  change (if test b.head? r then k ⟨b, r, cs₀⟩ else none).isSome
  simpa [ht] using hk [] rfl

theorem sound_and_complete (p : Pattern) (hp : p.steady) : p.Sound ∧ p.Complete := by
  induction p with
  | empty => exact ⟨sound_empty, complete_empty⟩
  | one cls => exact ⟨sound_one cls, complete_one cls⟩
  | seq p q ihp ihq =>
    obtain ⟨hp, hq⟩ := Bool.and_eq_true _ _ |>.mp hp
    obtain ⟨sp, cp⟩ := ihp hp
    obtain ⟨sq, cq⟩ := ihq hq
    exact ⟨sound_seq sp sq, complete_seq cp cq⟩
  | alt p q ihp ihq =>
    obtain ⟨hp, hq⟩ := Bool.and_eq_true _ _ |>.mp hp
    obtain ⟨sp, cp⟩ := ihp hp
    obtain ⟨sq, cq⟩ := ihq hq
    exact ⟨sound_alt sp sq, complete_alt cp cq⟩
  | star greedy p ih =>
    obtain ⟨hsome, hp⟩ := Bool.and_eq_true _ _ |>.mp hp
    obtain ⟨sp, cp⟩ := ih hp
    exact ⟨sound_star sp greedy, complete_star cp hsome greedy⟩
  | group name p ih =>
    obtain ⟨sp, cp⟩ := ih hp
    exact ⟨sound_group sp name, complete_group cp name⟩
  | look wanted p ih => exact ⟨sound_look (ih hp) wanted, complete_look (ih hp) wanted⟩
  | place test => exact ⟨sound_place test, complete_place test⟩

end DiagramRepair.Pattern
