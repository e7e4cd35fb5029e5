import DiagramRepair.Placeholder.Hiding
import DiagramRepair.Proofs.Placeholder.Intact
import DiagramRepair.Proofs.Text.Digits
import DiagramRepair.Proofs.Text.Spans

namespace DiagramRepair

open Pattern Registry

namespace Registry

variable {r : Registry} {T : Text → Prop} {s t t' k d : Text} {n : Nat} {c : Char}

def Proper (r : Registry) : Prop :=
  (∀ c ∈ r.tag, isTokenNameChar c) ∧ ∀ c ∈ r.nonce, isTokenNameChar c

def Issued (r : Registry) (k : Text) : Prop := ∃ n < r.size, k = r.token n

def stem (r : Registry) : Text := r.tag ++ '_' :: r.nonce ++ ['_']

def shaped (r : Registry) (d : Text) : Text := tokenOpen :: (r.stem ++ (d ++ [tokenClose]))

def Foreign (r : Registry) (T : Text → Prop) : Prop :=
  ∀ k, T k → ∀ d, (∀ c ∈ d, Text.isDecimalDigit c) → k ≠ r.shaped d

theorem token_eq_shaped (r : Registry) (n : Nat) : r.token n = r.shaped (Text.ofNat n) := by
  simp [token, shaped, stem]

theorem isTokenNameChar_of_mem_ofNat (h : c ∈ Text.ofNat n) : isTokenNameChar c := by
  have hdigit := isDigit_of_mem_ofNat h
  have hK : c ≠ 'K' := ne_of_class hdigit (by decide)
  simp [isTokenNameChar, isIdentChar_of_isDigit hdigit, hK]

theorem Proper.stem (hr : r.Proper) : ∀ c ∈ r.stem, isTokenNameChar c := by
  intro c hc
  simp only [Registry.stem, List.mem_append, List.mem_cons, List.not_mem_nil, or_false] at hc
  rcases hc with (hc | rfl | hc) | rfl
  · exact hr.1 c hc
  · decide
  · exact hr.2 c hc
  · decide

theorem tokenLike_token (hr : r.Proper) : TokenLike fun k ↦ ∃ n, k = r.token n := by
  rintro k ⟨n, rfl⟩
  refine ⟨r.stem ++ Text.ofNat n, by simp [token_eq_shaped, shaped], fun c hc ↦ ?_⟩
  rcases List.mem_append.mp hc with hc | hc
  · exact hr.stem c hc
  · exact isTokenNameChar_of_mem_ofNat hc

theorem tokenLike_issued (hr : r.Proper) : TokenLike r.Issued :=
  fun k ⟨n, _, hk⟩ ↦ tokenLike_token hr k ⟨n, hk⟩

theorem isTokenNameChar_of_mem_hex {width : Nat} (h : c ∈ Text.hex width n) :
    isTokenNameChar c := by
  rcases List.mem_append.mp h with h | h
  · rw [(List.mem_replicate.mp h).2]
    decide
  · obtain ⟨hident, hK⟩ := isIdentChar_of_mem_toDigits h
    simp [isTokenNameChar, hident, hK]

theorem proper_fresh [Nonces] {tag : String} (htag : ∀ c ∈ tag.toList, isTokenNameChar c)
    (t : Text) : (fresh tag t).Proper :=
  ⟨htag, fun _ ↦ isTokenNameChar_of_mem_hex⟩

theorem tokenClose_not_mem_of_digits (hd : ∀ c ∈ d, Text.isDecimalDigit c) : tokenClose ∉ d :=
  not_mem_of_class hd (by decide)

theorem tokenClose_not_mem_of_name (hs : ∀ c ∈ s, isTokenNameChar c) : tokenClose ∉ s :=
  not_mem_of_class hs (by decide)

theorem shaped_append_inj {d' : Text} (hd : ∀ c ∈ d, Text.isDecimalDigit c)
    (hd' : ∀ c ∈ d', Text.isDecimalDigit c) (h : r.shaped d ++ t = r.shaped d' ++ t') :
    d = d' ∧ t = t' := by
  simp only [shaped, List.cons_append, List.append_assoc, List.cons.injEq, true_and,
    List.append_cancel_left_eq, List.nil_append] at h
  exact Text.append_cons_inj (tokenClose_not_mem_of_digits hd) (tokenClose_not_mem_of_digits hd') h

theorem takes_tokenPattern {b u v : Text} {gs : Groups} : r.tokenPattern.Takes b u v gs ↔
    ∃ d, d ≠ [] ∧ (∀ c ∈ d, Text.isDecimalDigit c) ∧ u = r.shaped d ∧ gs = [("number", d)] := by
  simp only [tokenPattern, takes_append, takes_char, takes_lit, takes_group, takes_many1_one,
    existsAndEq, true_and, and_true, List.nil_append, List.append_nil, List.append_assoc]
  constructor
  · rintro ⟨d, rfl, rfl, hne, hd⟩
    exact ⟨d, hne, hd, by simp [shaped, stem], rfl⟩
  · rintro ⟨d, hne, hd, rfl, rfl⟩
    exact ⟨d, by simp [shaped, stem], rfl, hne, hd⟩

/-- The text with its tokens replaced by their pieces. -/
inductive Restored (r : Registry) : Text → Text → Prop
  | nil : Restored r [] []
  | keep {c : Char} {t t' : Text} :
      (∀ d t₀, d ≠ [] → (∀ c ∈ d, Text.isDecimalDigit c) → c :: t ≠ r.shaped d ++ t₀) →
      Restored r t t' → Restored r (c :: t) (c :: t')
  | piece {d v t t' : Text} :
      d ≠ [] → (∀ c ∈ d, Text.isDecimalDigit c) →
      v = (if r.token (digitsValue d) = r.shaped d then
        r.pieces[digitsValue d]?.getD (r.shaped d) else r.shaped d) →
      Restored r t t' → Restored r (r.shaped d ++ t) (v ++ t')

theorem restored_of_scans {b : Text} {ps : List Piece} (h : Scans r.tokenPattern b t ps) :
    Restored r t (ps.flatMap fun | .plain c => [c] | .found m => r.resolve m) := by
  induction h with
  | nil => exact .nil
  | plain hfree _ ih =>
    refine .keep (fun d t₀ hne hd ht ↦ hfree _ _ [("number", d)] ht ?_) ih
    exact takes_tokenPattern.mpr ⟨d, hne, hd, rfl, rfl⟩
  | @found m ps hm _ ih =>
    obtain ⟨gs, h, hgs⟩ := hm
    obtain ⟨d, hne, hd, hu, rfl⟩ := takes_tokenPattern.mp h
    have hnumber : m.group "number" = d := by
      rw [Match.group, hgs]
      rfl
    rw [List.flatMap_cons, hu]
    refine .piece hne hd ?_ ih
    simp only [resolve, hnumber, hu, beq_iff_eq]

theorem restored_restore (r : Registry) (t : Text) : Restored r t (r.restore t) := by
  have hsteady : r.tokenPattern.steady := Bool.and_eq_true_iff.mpr
    ⟨Bool.and_eq_true_iff.mpr ⟨Bool.and_eq_true_iff.mpr ⟨rfl, steady_lit _⟩, rfl⟩, rfl⟩
  exact restored_of_scans (scans_pieces hsteady rfl t)

theorem Restored.unique (h : Restored r t s) (h' : Restored r t t') : s = t' := by
  induction h generalizing t' with
  | nil =>
    cases h' with
    | nil => rfl
  | @keep c t s hno _ ih =>
    generalize ht : c :: t = t₀ at h'
    cases h' with
    | nil => simp at ht
    | keep _ h' =>
      obtain ⟨rfl, rfl⟩ := List.cons.inj ht
      rw [ih h']
    | piece hne hd _ _ => exact absurd ht (hno _ _ hne hd)
  | @piece d v t s hne hd hv _ ih =>
    generalize ht : r.shaped d ++ t = t₀ at h'
    cases h' with
    | nil => simp [shaped] at ht
    | keep hno _ => exact absurd ht.symm (hno _ _ hne hd)
    | piece hne' hd' hv' h' =>
      obtain ⟨rfl, rfl⟩ := shaped_append_inj hd hd' ht
      rw [hv, hv', ih h']

theorem Restored.eq_restore (h : Restored r t s) : r.restore t = s :=
  (restored_restore r t).unique h

theorem restore_nil : r.restore [] = [] := Restored.nil.eq_restore

theorem Restored.eq_of_no_pieces (h : r.Restored t s) (hr : r.pieces = #[]) : s = t := by
  induction h with
  | nil => rfl
  | keep _ _ ih => rw [ih]
  | piece _ _ hv _ ih =>
    simp only [hr, List.getElem?_toArray, List.getElem?_nil, Option.getD_none, ite_self] at hv
    rw [hv, ih]

theorem restore_of_no_pieces (hr : r.pieces = #[]) : r.restore t = t :=
  (restored_restore r t).eq_of_no_pieces hr

theorem restore_cons (hc : c ≠ tokenOpen) : r.restore (c :: t) = c :: r.restore t := by
  refine (Restored.keep (fun d t₀ _ _ h ↦ ?_) (restored_restore r t)).eq_restore
  exact hc (List.cons.inj h).1

theorem restore_append_of_not_mem (hs : tokenOpen ∉ s) : r.restore (s ++ t) = s ++ r.restore t := by
  induction s with
  | nil => rfl
  | cons c s ih =>
    rw [List.mem_cons, not_or] at hs
    rw [List.cons_append, restore_cons (Ne.symm hs.1), ih hs.2, List.cons_append]

theorem restore_of_not_mem (hs : tokenOpen ∉ s) : r.restore s = s := by
  simpa [restore_nil] using restore_append_of_not_mem (r := r) (t := []) hs

theorem restore_token_append (hn : n < r.pieces.size) :
    r.restore (r.token n ++ t) = r.pieces[n] ++ r.restore t := by
  have hdigits : ∀ c ∈ Text.ofNat n, Text.isDecimalDigit c :=
    fun c hc ↦ isDecimalDigit_of_isDigit (isDigit_of_mem_ofNat hc)
  have hne : Text.ofNat n ≠ [] := Nat.toDigits_ne_nil
  rw [token_eq_shaped]
  refine (Restored.piece hne hdigits ?_ (restored_restore r t)).eq_restore
  rw [digitsValue_ofNat, token_eq_shaped, if_pos rfl, Array.getElem?_eq_getElem hn]
  rfl

theorem restore_token (hn : n < r.pieces.size) : r.restore (r.token n) = r.pieces[n] := by
  simpa [restore_nil] using restore_token_append (t := []) hn

/-- What stands between the two ends of a token and has not the form of one is kept. -/
theorem restore_enclosed_append {w : Text} (hopen : tokenOpen ∉ w) (hclose : tokenClose ∉ w)
    (hstem : tokenClose ∉ r.stem) (h : ∀ d, (∀ c ∈ d, Text.isDecimalDigit c) → w ≠ r.stem ++ d) :
    r.restore (tokenOpen :: (w ++ [tokenClose]) ++ t) =
      tokenOpen :: (w ++ [tokenClose]) ++ r.restore t := by
  have htail : tokenOpen ∉ w ++ [tokenClose] := by
    simp only [List.mem_append, List.mem_singleton, not_or]
    exact ⟨hopen, by decide⟩
  have hrestored := restored_restore r (w ++ [tokenClose] ++ t)
  rw [restore_append_of_not_mem htail] at hrestored
  refine (Restored.keep (fun d t₀ _ hd heq ↦ h d hd ?_) hrestored).eq_restore
  have hname : tokenClose ∉ r.stem ++ d := by
    rw [List.mem_append, not_or]
    exact ⟨hstem, tokenClose_not_mem_of_digits hd⟩
  have hjoin : w ++ tokenClose :: t = r.stem ++ d ++ tokenClose :: t₀ := by
    simpa [shaped] using heq
  exact (Text.append_cons_inj hclose hname hjoin).1

def Known (r : Registry) (T : Text → Prop) (k : Text) : Prop := r.Issued k ∨ T k

/-- A registry that takes no token of the family for its own. -/
structure Apart (r : Registry) (T : Text → Prop) : Prop where
  proper : r.Proper
  tokenLike : TokenLike T
  foreign : r.Foreign T

theorem Apart.tokenLike_known (h : r.Apart T) : TokenLike (r.Known T) := by
  rintro k (hk | hk)
  · exact tokenLike_issued h.proper k hk
  · exact h.tokenLike k hk

theorem restore_foreign_append (h : r.Apart T) (hk : T k) :
    r.restore (k ++ t) = k ++ r.restore t := by
  obtain ⟨w, rfl, hw⟩ := h.tokenLike k hk
  refine restore_enclosed_append (not_mem_of_class hw (by decide)) (tokenClose_not_mem_of_name hw)
    (tokenClose_not_mem_of_name h.proper.stem) fun d hd hwd ↦ h.foreign _ hk d hd ?_
  simp [shaped, hwd]

/-- A token of the registry gives way to its piece and any other one stays, whatever comes next. -/
theorem exists_restore_known (h : r.Apart T) (hk : r.Known T k) :
    ∃ v, (v ∈ r.pieces ∨ v = k ∧ T k) ∧ ∀ t, r.restore (k ++ t) = v ++ r.restore t := by
  rcases hk with ⟨n, hn, rfl⟩ | hk
  · exact ⟨r.pieces[n], .inl (Array.getElem_mem hn), fun _ ↦ restore_token_append hn⟩
  · exact ⟨k, .inr ⟨rfl, hk⟩, fun _ ↦ restore_foreign_append h hk⟩

theorem restore_append (h : r.Apart T) (hs : Intact (r.Known T) s) :
    r.restore (s ++ t) = r.restore s ++ r.restore t := by
  refine Intact.induction h.tokenLike_known ?nil ?plain ?token hs
  case nil => rw [restore_nil, List.nil_append, List.nil_append]
  case plain =>
    intro c s hc _ ih
    rw [List.cons_append, restore_cons hc, restore_cons hc, ih, List.cons_append]
  case token =>
    intro k s hk _ ih
    obtain ⟨v, -, hv⟩ := exists_restore_known h hk
    rw [List.append_assoc, hv, hv, ih, List.append_assoc]

theorem restore_eq_self (h : r.Apart T) (ht : Intact T t) : r.restore t = t := by
  refine Intact.induction h.tokenLike restore_nil ?plain ?token ht
  case plain =>
    intro c t hc _ ih
    rw [restore_cons hc, ih]
  case token =>
    intro k t hk _ ih
    rw [restore_foreign_append h hk, ih]

theorem intact_restore (h : r.Apart T) (hpieces : ∀ p ∈ r.pieces, Intact T p)
    (ht : Intact (r.Known T) t) : Intact T (r.restore t) := by
  refine Intact.induction h.tokenLike_known ?nil ?plain ?token ht
  case nil =>
    rw [restore_nil]
    exact intact_of_not_mem (by simp)
  case plain =>
    intro c t hc _ ih
    rw [restore_cons hc]
    exact (intact_cons hc).mpr ih
  case token =>
    intro k t hk _ ih
    obtain ⟨v, hpiece | ⟨rfl, hforeign⟩, hv⟩ := exists_restore_known h hk
    · rw [hv]
      exact (hpieces v hpiece).append ih
    · rw [hv]
      exact (h.tokenLike.intact hforeign).append ih

theorem restore_ne_nil (h : r.Apart T) (hpieces : ∀ p ∈ r.pieces, p ≠ [])
    (ht : Intact (r.Known T) t) (hne : t ≠ []) : r.restore t ≠ [] := by
  revert hne
  refine Intact.induction h.tokenLike_known ?nil ?plain ?token ht
  case nil => exact fun hne ↦ absurd rfl hne
  case plain =>
    intro c t hc _ _ _
    simp [restore_cons hc]
  case token =>
    intro k t hk _ _ _ hnil
    obtain ⟨v, hpiece | ⟨rfl, hforeign⟩, hv⟩ := exists_restore_known h hk
    · rw [hv, List.append_eq_nil_iff] at hnil
      exact hpieces v hpiece hnil.1
    · rw [hv, List.append_eq_nil_iff] at hnil
      obtain ⟨w, rfl, -⟩ := h.tokenLike v hforeign
      simp at hnil

theorem newline_not_mem_restore (h : r.Apart T) (hpieces : ∀ p ∈ r.pieces, '\n' ∉ p)
    (ht : Intact (r.Known T) t) (hline : '\n' ∉ t) : '\n' ∉ r.restore t := by
  revert hline
  refine Intact.induction h.tokenLike_known ?nil ?plain ?token ht
  case nil => simp [restore_nil]
  case plain =>
    intro c t hc _ ih hline
    rw [restore_cons hc]
    simp_all
  case token =>
    intro k t hk _ ih hline
    rw [List.mem_append, not_or] at hline
    obtain ⟨v, hpiece | ⟨rfl, -⟩, hv⟩ := exists_restore_known h hk
    · rw [hv, List.mem_append, not_or]
      exact ⟨hpieces v hpiece, ih hline.2⟩
    · rw [hv, List.mem_append, not_or]
      exact ⟨hline.1, ih hline.2⟩

theorem restore_unlines (h : r.Apart T) {ls : List Text} (hls : ∀ l ∈ ls, Intact (r.Known T) l) :
    r.restore (Text.unlines ls) = Text.unlines (ls.map r.restore) := by
  induction ls with
  | nil => exact restore_nil
  | cons l ls ih =>
    rw [List.forall_mem_cons] at hls
    by_cases hnil : ls = []
    · simp [hnil, Text.unlines_singleton]
    · rw [Text.unlines_cons hnil, restore_append h hls.1, restore_cons (by decide), ih hls.2,
        List.map_cons, Text.unlines_cons (by simpa using hnil)]

/-- Where no piece runs over the end of a line, the lines are restored one by one. -/
theorem lines_restore (h : r.Apart T) (hpieces : ∀ p ∈ r.pieces, '\n' ∉ p)
    (ht : Intact (r.Known T) t) :
    Text.lines (r.restore t) = (Text.lines t).map r.restore := by
  have hls := (intact_iff_lines h.tokenLike_known).mp ht
  have hrestore := restore_unlines h hls
  rw [Text.unlines_lines] at hrestore
  rw [hrestore, Text.lines_unlines (by simp [Text.lines_ne_nil])]
  intro l' hl'
  obtain ⟨l, hl, rfl⟩ := List.mem_map.mp hl'
  exact newline_not_mem_restore h hpieces (hls l hl) (Text.newline_not_mem_of_mem_lines hl)

/-- Tokens with different tags are foreign to each other. -/
theorem foreign_of_tag {r' : Registry} (hr : '_' ∉ r.tag) (hr' : '_' ∉ r'.tag)
    (htag : r.tag ≠ r'.tag) : r.Foreign r'.Issued := by
  rintro k ⟨n, -, rfl⟩ d - h
  simp only [token_eq_shaped, shaped, stem, List.cons.injEq, true_and, List.append_assoc,
    List.cons_append] at h
  exact htag (Text.append_cons_inj hr' hr h).1.symm

end Registry

end DiagramRepair
