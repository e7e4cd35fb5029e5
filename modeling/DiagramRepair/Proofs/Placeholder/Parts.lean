import DiagramRepair.Proofs.Placeholder.Restore

namespace DiagramRepair.Registry

variable {r r' : Registry} {added : List (Text × Text)} {originals pieces : List Text}
  {k s t u v : Text} {n : Nat} {c : Char}

def addAll (r : Registry) : List Text → List Text × Registry
  | [] => ([], r)
  | t :: ts =>
    let (token, r₁) := r.add t
    let (tokens, r₂) := r₁.addAll ts
    (token :: tokens, r₂)

def isHexDigit (c : Char) : Bool := Pattern.among "0123456789abcdefABCDEF" c

/-- The tag is made of capital letters and the nonce of eight hexadecimal digits. -/
structure WellNamed (r : Registry) : Prop where
  tag_ne_nil : r.tag ≠ []
  tag : ∀ c ∈ r.tag, c.isUpper
  length_nonce : r.nonce.length = 8
  nonce : ∀ c ∈ r.nonce, isHexDigit c

/-- What a part of a text becomes: a token gives way to the text it was given out for, a token of a
registry with another name stays, and so does a stretch in which no token begins. -/
inductive PartOf (r : Registry) (added : List (Text × Text)) : Text → Text → Prop
  | own {k t : Text} : (k, t) ∈ added → PartOf r added k t
  | foreign {r' : Registry} {k : Text} : r'.WellNamed → r'.tag ≠ r.tag ∨ r'.nonce ≠ r.nonce →
    r'.Issued k → PartOf r added k k
  | plain {s : Text} : tokenOpen ∉ s → PartOf r added s s

theorem addAll_registry (r : Registry) (ts : List Text) :
    (r.addAll ts).2 = { r with pieces := r.pieces ++ ts.toArray } := by
  induction ts generalizing r with
  | nil => simp [addAll]
  | cons t ts ih => simp [addAll, ih, add]

/-- A token given out for a text is the token of the place where that text is kept. -/
theorem exists_of_mem_addAll {ts : List Text} (h : (k, t) ∈ (r.addAll ts).1.zip ts) :
    ∃ n, k = (r.addAll ts).2.token n ∧ (r.addAll ts).2.pieces[n]? = some t := by
  rw [addAll_registry]
  induction ts generalizing r with
  | nil => simp at h
  | cons t' ts ih =>
    simp only [addAll, List.zip_cons_cons, List.mem_cons, Prod.mk.injEq] at h
    rcases h with ⟨rfl, rfl⟩ | h
    · refine ⟨r.size, rfl, ?_⟩
      simp [size]
    · obtain ⟨n, hk, hn⟩ := ih h
      exact ⟨n, hk, by simpa [add] using hn⟩

theorem WellNamed.underscore_not_mem_tag (hr : r.WellNamed) : '_' ∉ r.tag :=
  not_mem_of_class hr.tag (by decide)

theorem WellNamed.underscore_not_mem_nonce (hr : r.WellNamed) : '_' ∉ r.nonce :=
  not_mem_of_class hr.nonce (by decide)

/-- No name holds a character that is neither a letter nor a digit nor an underscore. -/
theorem WellNamed.not_mem_stem (hr : r.WellNamed) (hupper : c.isUpper = false)
    (hhex : isHexDigit c = false) (hc : c ≠ '_') : c ∉ r.stem := by
  simp only [stem, List.mem_append, List.mem_cons, List.not_mem_nil, or_false, not_or]
  exact ⟨⟨not_mem_of_class hr.tag hupper, hc, not_mem_of_class hr.nonce hhex⟩, hc⟩

/-- The name of a token tells its registry. -/
theorem WellNamed.stem_append_ne (hr : r.WellNamed) (hr' : r'.WellNamed)
    (hne : r'.tag ≠ r.tag ∨ r'.nonce ≠ r.nonce) (s t : Text) : r'.stem ++ s ≠ r.stem ++ t := by
  intro h
  simp only [stem, List.append_assoc, List.cons_append, List.nil_append] at h
  obtain ⟨htag, hrest⟩ :=
    Text.append_cons_inj hr'.underscore_not_mem_tag hr.underscore_not_mem_tag h
  have hnonce := Text.append_cons_inj hr'.underscore_not_mem_nonce hr.underscore_not_mem_nonce hrest
  exact hne.elim (· htag) (· hnonce.1)

theorem restore_issued_append (hr : r.WellNamed) (hr' : r'.WellNamed)
    (hne : r'.tag ≠ r.tag ∨ r'.nonce ≠ r.nonce) (hk : r'.Issued k) (t : Text) :
    r.restore (k ++ t) = k ++ r.restore t := by
  obtain ⟨n, -, rfl⟩ := hk
  have hdigits : ∀ c ∈ Text.ofNat n, c.isDigit := fun c hc ↦ isDigit_of_mem_ofNat hc
  have htoken : r'.token n = tokenOpen :: (r'.stem ++ Text.ofNat n ++ [tokenClose]) := by
    simp [token_eq_shaped, shaped]
  have hname : ∀ c, c.isUpper = false → isHexDigit c = false → c ≠ '_' → c.isDigit = false →
      c ∉ r'.stem ++ Text.ofNat n := fun c hupper hhex hc hdigit ↦
    List.not_mem_append (hr'.not_mem_stem hupper hhex hc) (not_mem_of_class hdigits hdigit)
  rw [htoken]
  refine restore_enclosed_append (hname _ (by decide) (by decide) (by decide) (by decide))
    (hname _ (by decide) (by decide) (by decide) (by decide))
    (hr.not_mem_stem (by decide) (by decide) (by decide)) fun d _ ↦ hr.stem_append_ne hr' hne _ _

/-- A text is restored part by part: what is put back is not read again, and no part is misread for
what stands next to it. -/
theorem restore_flatMap_parts (hr : r.WellNamed) (originals : List Text)
    (parts : List (Text × Text))
    (hparts : ∀ p ∈ parts, PartOf r ((r.addAll originals).1.zip originals) p.1 p.2) :
    (r.addAll originals).2.restore (parts.flatMap Prod.fst) = parts.flatMap Prod.snd := by
  have hnamed : (r.addAll originals).2.WellNamed := by
    rw [addAll_registry]
    exact ⟨hr.tag_ne_nil, hr.tag, hr.length_nonce, hr.nonce⟩
  induction parts with
  | nil => exact restore_nil
  | cons p parts ih =>
    rw [List.forall_mem_cons] at hparts
    rw [List.flatMap_cons, List.flatMap_cons, ← ih hparts.2]
    generalize hk : p.1 = k, ht : p.2 = t at hparts ⊢
    cases hparts.1 with
    | own hmem =>
      obtain ⟨n, rfl, hpiece⟩ := exists_of_mem_addAll hmem
      obtain ⟨hn, rfl⟩ := Array.getElem?_eq_some_iff.mp hpiece
      exact restore_token_append hn
    | foreign hr' hne hissued =>
      refine restore_issued_append hnamed hr' ?_ hissued _
      rwa [addAll_registry]
    | plain hs => exact restore_append_of_not_mem hs

/-- Eleven texts, the last of which holds the token of another: the tokens 1 and 10 differ by a
digit that stands right behind one of them, and a token of another registry differs by its nonce. -/
theorem restore_flatMap_parts_eleven :
    let r : Registry := ⟨Text.of "BLOCK", Text.of "0a1b2c3d", #[]⟩
    let other : Registry := ⟨Text.of "BLOCK", Text.of "0a1b2c3e", #[Text.of "x"]⟩
    let originals := List.replicate 9 (Text.of "A") ++ [Text.of "B", r.token 1]
    let parts := [(r.token 10, r.token 1), (Text.of "0", Text.of "0"), (r.token 1, Text.of "A"),
      (Text.of "0", Text.of "0"), (other.token 0, other.token 0), (r.token 9, Text.of "B")]
    (r.WellNamed ∧ ∀ p ∈ parts, PartOf r ((r.addAll originals).1.zip originals) p.1 p.2) ∧
    (r.addAll originals).2.restore (parts.flatMap Prod.fst) =
      r.token 1 ++ Text.of "0A0" ++ other.token 0 ++ Text.of "B" := by
  intro r other originals parts
  have hr : r.WellNamed := ⟨by decide, by decide, by decide, by decide⟩
  have hother : other.WellNamed := ⟨by decide, by decide, by decide, by decide⟩
  have hparts : ∀ p ∈ parts, PartOf r ((r.addAll originals).1.zip originals) p.1 p.2 := by
    intro p hp
    simp only [parts, List.mem_cons, List.not_mem_nil, or_false] at hp
    rcases hp with rfl | rfl | rfl | rfl | rfl | rfl
    · exact .own (by decide)
    · exact .plain (by decide)
    · exact .own (by decide)
    · exact .plain (by decide)
    · exact .foreign hother (.inr (by decide)) ⟨0, by decide, rfl⟩
    · exact .own (by decide)
  exact ⟨⟨hr, hparts⟩, (restore_flatMap_parts hr originals parts hparts).trans (by decide)⟩

end DiagramRepair.Registry
