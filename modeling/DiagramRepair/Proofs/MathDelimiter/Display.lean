import DiagramRepair.Proofs.MathDelimiter.Pairs
import DiagramRepair.Proofs.Placeholder.Fresh
import DiagramRepair.Proofs.Placeholder.Hiding
import Mathlib.Algebra.Group.Nat.Even

namespace DiagramRepair.MathDelimiter

open Pattern Registry

variable {token : Nat → Text} {r : Registry} {s t pre body post : Text} {n : Nat} {c : Char}

def display (body : Text) : Text := '$' :: '$' :: (body ++ ['$', '$'])

/-- The number of delimiters in a text: the dollars that are not escaped, and `\(` and `\)`. -/
def delimiters : Text → Nat
  | '\\' :: '$' :: t => delimiters t
  | '\\' :: '(' :: t => delimiters t + 1
  | '\\' :: ')' :: t => delimiters t + 1
  | c :: t => delimiters t + if c = '$' then 1 else 0
  | [] => 0

def hideDollars (token : Nat → Text) : (n : Nat) → Text → Text
  | n, '\\' :: '$' :: t => token n ++ hideDollars token (n + 1) t
  | n, c :: t => c :: hideDollars token n t
  | _, [] => []

theorem hideDollars_cons (h : ∀ t', c :: t ≠ '\\' :: '$' :: t') :
    hideDollars token n (c :: t) = c :: hideDollars token n t := by
  rw [hideDollars]
  rintro t' rfl rfl
  exact h t' rfl

theorem hideDollars_append_of_not_mem (hs : '\\' ∉ s) :
    hideDollars token n (s ++ t) = s ++ hideDollars token n t := by
  induction s with
  | nil => rfl
  | cons c s ih =>
    rw [List.mem_cons, not_or] at hs
    rw [List.cons_append, hideDollars_cons (by simp [Ne.symm hs.1]), ih hs.2, List.cons_append]

/-- A dollar behind a text that does not end with a backslash is not escaped. -/
theorem exists_hideDollars_append (token : Nat → Text) (n : Nat) (t : Text)
    (hs : s.getLast? ≠ some '\\') :
    ∃ m, hideDollars token n (s ++ '$' :: t) =
      hideDollars token n s ++ '$' :: hideDollars token m t := by
  fun_induction hideDollars token n s with
  | case1 n s ih =>
    obtain ⟨m, hm⟩ := ih fun hlast ↦ hs (by simp [List.getLast?_cons, hlast])
    exact ⟨m, by simp [hideDollars, hm]⟩
  | case2 n c s hplain ih =>
    obtain ⟨m, hm⟩ := ih fun hlast ↦ hs (by simp [List.getLast?_cons, hlast])
    refine ⟨m, ?_⟩
    rw [List.cons_append, hideDollars_cons, hm, List.cons_append]
    intro t' h
    obtain ⟨rfl, htail⟩ := List.cons.inj h
    cases s with
    | nil => simp at hs
    | cons d s => exact hplain s rfl (by rw [(List.cons.inj htail).1])
  | case3 n => exact ⟨n, hideDollars_cons (by simp)⟩

theorem hideMatches_dollars [Nonces] (tag : String) (t : Text) :
    (hideMatches (sign "\\$") tag t).1 = hideDollars (fresh tag t).token 0 t := by
  have hscans : ∀ {b t ps}, Scans (sign "\\$") b t ps → ∀ r : Registry,
      (Part.conceal (ps.map Piece.toPart) r).1 = hideDollars r.token r.size t := by
    intro b t ps h
    induction h with
    | nil => exact fun _ ↦ rfl
    | @plain b t c ps hfree _ ih =>
      intro r
      have hplain : ∀ t', c :: t ≠ '\\' :: '$' :: t' :=
        fun t' ht ↦ hfree ['\\', '$'] t' [] ht (takes_sign.mpr ⟨rfl, rfl⟩)
      rw [hideDollars_cons hplain, ← ih r]
      rfl
    | @found m ps hm _ ih =>
      intro r
      obtain ⟨gs, htakes, -⟩ := hm
      obtain ⟨hwhole, -⟩ := takes_sign.mp htakes
      have hnext := ih (r.add m.whole).2
      have hsize : (r.add m.whole).2.size = r.size + 1 := by simp [add, size]
      rw [hsize] at hnext
      rw [hwhole]
      exact congrArg (r.token r.size ++ ·) hnext
  rw [hideMatches, Part.ofPattern_eq]
  exact hscans (scans_pieces (by decide) (by decide) t) _

def plainDollars [Nonces] (t : Text) : Registry :=
  let dollars := (hideMatches (sign "\\$") "DOLLAR" t).2
  { dollars with pieces := dollars.pieces.map fun _ ↦ ['$'] }

theorem exists_plainDollars_eq [Nonces] (t : Text) :
    ∃ pieces, plainDollars t = { fresh "DOLLAR" t with pieces } := by
  rw [plainDollars, hideMatches, Part.conceal_registry]
  exact ⟨_, rfl⟩

theorem proper_plainDollars [Nonces] (t : Text) : (plainDollars t).Proper := by
  obtain ⟨pieces, heq⟩ := exists_plainDollars_eq t
  have hfresh : (fresh "DOLLAR" t).Proper := proper_fresh (by decide) t
  rw [heq]
  exact hfresh

theorem nonce_plainDollars [Nonces] (t : Text) :
    (plainDollars t).nonce = Nonces.digits "DOLLAR" t := by
  obtain ⟨pieces, heq⟩ := exists_plainDollars_eq t
  rw [heq]
  rfl

theorem cleanup_eq [Nonces] (t : Text) : cleanup t = (plainDollars t).restore
    (trimDollars (toDollars (hideDollars (plainDollars t).token 0 t))) := by
  obtain ⟨pieces, heq⟩ := exists_plainDollars_eq t
  have htoken : (plainDollars t).token = (fresh "DOLLAR" t).token := by
    rw [heq]
    rfl
  rw [htoken, ← hideMatches_dollars, ← replaceAll_trimInline]
  rfl

theorem exists_of_hideDollars_eq (hc : c ≠ tokenOpen) (h : hideDollars r.token n t = c :: s) :
    ∃ t', t = c :: t' := by
  cases t with
  | nil => simp [hideDollars] at h
  | cons d t =>
    by_cases hescaped : ∃ t', d :: t = '\\' :: '$' :: t'
    · obtain ⟨t', ht⟩ := hescaped
      rw [ht, hideDollars] at h
      exact absurd (List.cons.inj h).1.symm hc
    · rw [not_exists] at hescaped
      rw [hideDollars_cons hescaped] at h
      exact ⟨t, by rw [(List.cons.inj h).1]⟩

/-- The dollars left when the escaped ones are hidden and the others written are the delimiters. -/
theorem count_toDollars (hr : r.Proper) (n : Nat) (t : Text) :
    (toDollars (hideDollars r.token n t)).count '$' = delimiters t := by
  have htoken : ∀ n c, isTokenChar c = false → c ∉ r.token n :=
    fun n c hc ↦ (tokenLike_token hr).not_mem ⟨n, rfl⟩ hc
  fun_induction delimiters t generalizing n with
  | case1 t ih =>
    rw [hideDollars, toDollars_append_of_not_mem (htoken n _ (by decide)), List.count_append,
      List.count_eq_zero.mpr (htoken n _ (by decide)), ih, Nat.zero_add]
  | case2 t ih =>
    rw [hideDollars_cons (by simp), hideDollars_cons (by simp), toDollars, List.count_cons_self, ih]
  | case3 t ih =>
    rw [hideDollars_cons (by simp), hideDollars_cons (by simp), toDollars, List.count_cons_self, ih]
  | case4 c t hescaped hopen hclose ih =>
    rw [hideDollars_cons, toDollars_cons, List.count_cons, ih]
    · simp
    · intro t' h
      obtain ⟨rfl, htail⟩ := List.cons.inj h
      obtain ⟨t'', rfl⟩ := exists_of_hideDollars_eq (by decide) htail
      exact hopen t'' rfl rfl
    · intro t' h
      obtain ⟨rfl, htail⟩ := List.cons.inj h
      obtain ⟨t'', rfl⟩ := exists_of_hideDollars_eq (by decide) htail
      exact hclose t'' rfl rfl
    · intro t' h
      obtain ⟨rfl, rfl⟩ := List.cons.inj h
      exact hescaped t' rfl rfl
  | case5 => rfl

theorem exists_hideDollars_display (token : Nat → Text) (n : Nat) (t : Text)
    (hs : s.getLast? ≠ some '\\') (hbody : '\\' ∉ body) :
    ∃ m, hideDollars token n (s ++ (display body ++ t)) =
      hideDollars token n s ++ (display body ++ hideDollars token m t) := by
  have hrest : '\\' ∉ '$' :: (body ++ ['$', '$']) := by simp [hbody]
  obtain ⟨m, hm⟩ := exists_hideDollars_append token n ('$' :: (body ++ ['$', '$']) ++ t) hs
  rw [hideDollars_append_of_not_mem hrest] at hm
  exact ⟨m, hm⟩

theorem toDollars_display (s t : Text) (hbody : '\\' ∉ body) :
    toDollars (s ++ (display body ++ t)) = toDollars s ++ (display body ++ toDollars t) := by
  have hrest : '\\' ∉ '$' :: (body ++ ['$', '$']) := by simp [hbody]
  have hsplit := toDollars_append_dollar s ('$' :: (body ++ ['$', '$']) ++ t)
  rw [toDollars_append_of_not_mem hrest] at hsplit
  exact hsplit

theorem splitOn_display (s t : Text) (hbody : '$' ∉ body) :
    (s ++ (display body ++ t)).splitOn '$' =
      s.splitOn '$' ++ [] :: body :: [] :: t.splitOn '$' := by
  have hjoin : s ++ (display body ++ t) = s ++ '$' :: '$' :: (body ++ '$' :: '$' :: t) := by
    simp [display]
  rw [hjoin, List.splitOn_append_cons_self, splitOn_dollar,
    List.splitOn_append_cons_self_of_not_mem hbody, splitOn_dollar]

theorem intercalate_display {qs qs' : List Text} (hqs : qs ≠ []) (hqs' : qs' ≠ []) (body : Text) :
    ['$'].intercalate (qs ++ [] :: body :: [] :: qs') =
      ['$'].intercalate qs ++ (display body ++ ['$'].intercalate qs') := by
  rw [Text.intercalate_append hqs (by simp), List.intercalate_cons_cons,
    List.intercalate_cons_cons, List.intercalate_cons_of_ne_nil hqs']
  simp [display]

/-- The body of a display formula is an even piece or an odd one as the dollars before it are. -/
theorem exists_trimDollars_display (s t : Text) (hbody : '$' ∉ body) :
    ∃ s' t', trimDollars (s ++ (display body ++ t)) =
      s' ++ (display (if Even (s.count '$') then body else Text.trim body) ++ t') := by
  have hblank : ∀ count i, trimPiece count i [] = [] := fun _ _ ↦ ite_self []
  have hpiece : ∀ count, s.count '$' + 3 < count →
      trimPiece count (0 + 1 + (s.count '$' + 1)) body =
        if Even (s.count '$') then body else Text.trim body := by
    intro count hcount
    by_cases heven : Even (s.count '$')
    · rw [if_pos heven]
      rw [Nat.even_iff] at heven
      exact if_neg (by omega)
    · rw [if_neg heven]
      rw [Nat.not_even_iff] at heven
      exact if_pos (by omega)
  simp only [trimDollars, splitOn_display s t hbody, List.mapIdx_append, List.mapIdx_cons,
    List.length_append, List.length_cons, Text.length_splitOn, hblank]
  rw [hpiece _ (by omega), intercalate_display (by simp) (by simp)]
  exact ⟨_, _, rfl⟩

theorem restore_display (hr : r.Proper) (s t : Text) (hbody : r.restore body = body) :
    r.restore (s ++ (display body ++ t)) = r.restore s ++ (display body ++ r.restore t) := by
  have hdollar : ∀ d, (∀ c ∈ d, Text.isDecimalDigit c) → '$' ∉ r.shaped d :=
    fun d ↦ not_mem_shaped hr (by decide) (by decide)
  have hjoin : s ++ (display body ++ t) = s ++ '$' :: '$' :: (body ++ '$' :: '$' :: t) := by
    simp [display]
  rw [hjoin, restore_append_cons hdollar, restore_cons (by decide), restore_append_cons hdollar,
    restore_cons (by decide), hbody]
  simp [display]

/-- A display formula is kept behind an even number of delimiters, and behind an odd one it loses its
margins. -/
theorem display_infix_cleanup_of_delimiters [Nonces] (post : Text) (hpre : pre.getLast? ≠ some '\\')
    (hdollar : '$' ∉ body) (hback : '\\' ∉ body)
    (hnonce : ¬ Nonces.digits "DOLLAR" (pre ++ (display body ++ post)) <:+: body) :
    display (if Even (delimiters pre) then body else Text.trim body) <:+:
      cleanup (pre ++ (display body ++ post)) := by
  have hproper := proper_plainDollars (pre ++ (display body ++ post))
  rw [← nonce_plainDollars] at hnonce
  have hcleanup := cleanup_eq (pre ++ (display body ++ post))
  generalize plainDollars (pre ++ (display body ++ post)) = r at hproper hnonce hcleanup
  obtain ⟨m, hhidden⟩ := exists_hideDollars_display r.token 0 post hpre hback
  obtain ⟨s', t', htrimmed⟩ := exists_trimDollars_display
    (toDollars (hideDollars r.token 0 pre)) (toDollars (hideDollars r.token m post)) hdollar
  rw [count_toDollars hproper] at htrimmed
  generalize hkept : (if Even (delimiters pre) then body else Text.trim body) = kept at htrimmed ⊢
  have hpart : kept <:+: body := by
    rw [← hkept]
    split
    · exact List.infix_rfl
    · exact Text.trim_infix_self body
  have hrestore : r.restore kept = kept :=
    restore_of_unused_nonce fun h ↦ hnonce (h.trans hpart)
  rw [hcleanup, hhidden, toDollars_display _ _ hback, htrimmed,
    restore_display hproper _ _ hrestore]
  exact (List.prefix_append _ _).isInfix.trans (List.suffix_append _ _).isInfix

/-- A display formula is left alone where the delimiters before it are even in number, or where its
body has no blank margins; behind an odd number of delimiters the margins go. -/
theorem display_infix_cleanup [Nonces] (post : Text) (hpre : pre.getLast? ≠ some '\\')
    (hdollar : '$' ∉ body) (hback : '\\' ∉ body)
    (hnonce : ¬ Nonces.digits "DOLLAR" (pre ++ (display body ++ post)) <:+: body) :
    (Even (delimiters pre) ∨ Text.trim body = body →
      display body <:+: cleanup (pre ++ (display body ++ post))) ∧
    (¬ Even (delimiters pre) →
      display (Text.trim body) <:+: cleanup (pre ++ (display body ++ post))) := by
  have hkept := display_infix_cleanup_of_delimiters post hpre hdollar hback hnonce
  by_cases heven : Even (delimiters pre)
  · rw [if_pos heven] at hkept
    exact ⟨fun _ ↦ hkept, fun hodd ↦ absurd heven hodd⟩
  · rw [if_neg heven] at hkept
    refine ⟨fun h ↦ ?_, fun _ ↦ hkept⟩
    rwa [h.resolve_left heven] at hkept

section

attribute [local instance] Nonces.zeros

/-- An escaped dollar and two formulas in the line before, and a price behind: four delimiters. With
a price before them there are five. -/
theorem display_infix_cleanup_inline :
    let inline := Text.of "\\$3, \\( a \\) and $ b $: "
    let price := Text.of "$5 "
    let body := Text.of " y = z "
    let post := Text.of " for $5"
    (delimiters inline = 4 ∧ delimiters (price ++ inline) = 5 ∧ '$' ∉ body ∧ '\\' ∉ body ∧
      ∀ t, ¬ Nonces.digits "DOLLAR" t <:+: body) ∧
    display body <:+: cleanup (inline ++ (display body ++ post)) ∧
    display (Text.of "y = z") <:+: cleanup (price ++ inline ++ (display body ++ post)) := by
  intro inline price body post
  have hdollar : '$' ∉ body := by decide
  have hback : '\\' ∉ body := by decide
  have hfour : delimiters inline = 4 := by decide
  have hfive : delimiters (price ++ inline) = 5 := by decide
  have heven : Even (delimiters inline) := by rw [hfour]; decide
  have hodd : ¬ Even (delimiters (price ++ inline)) := by rw [hfive]; decide
  have hinline : inline.getLast? ≠ some '\\' := by decide
  have hprice : (price ++ inline).getLast? ≠ some '\\' := by decide
  have hzero : ∀ t, (Nonces.draw "DOLLAR" t : Nat) = 0 := fun _ ↦ rfl
  have hnonce : ∀ t, ¬ Nonces.digits "DOLLAR" t <:+: body := by
    intro t h
    have hmem : '0' ∈ Nonces.digits "DOLLAR" t := by
      rw [Nonces.digits, hzero]
      decide
    exact absurd (h.subset hmem) (by decide)
  obtain ⟨hkept, -⟩ := display_infix_cleanup post hinline hdollar hback (hnonce _)
  obtain ⟨-, htrimmed⟩ := display_infix_cleanup post hprice hdollar hback (hnonce _)
  exact ⟨⟨hfour, hfive, hdollar, hback, hnonce⟩, hkept (.inl heven), htrimmed hodd⟩

/-- The dollar of a price pairs with the first dollar of the formula behind it. -/
theorem cleanup_display_after_price :
    let pre := Text.of "cost $5: "
    let body := Text.of " x "
    (pre.getLast? ≠ some '$' ∧ pre.getLast? ≠ some '\\' ∧ '$' ∉ body ∧ '\\' ∉ body) ∧
    cleanup (pre ++ (display body ++ [])) = Text.of "cost $5:$$x$$" ∧
    ¬ display body <:+: cleanup (pre ++ (display body ++ [])) := by
  decide +kernel

end

end DiagramRepair.MathDelimiter
