import DiagramRepair.Placeholder.Registry
import DiagramRepair.Proofs.Pattern.Search
import DiagramRepair.Proofs.Text.Classes
import DiagramRepair.Proofs.Text.Lines

namespace DiagramRepair

open Pattern Registry

/-- The characters between the two ends of a token. No tag, nonce or number has a `K`, so no token
holds a bracket mark. -/
def isTokenNameChar (c : Char) : Bool := isIdentChar c && c != 'K'

def isTokenChar (c : Char) : Bool := isTokenNameChar c || c == tokenOpen || c == tokenClose

def TokenLike (T : Text → Prop) : Prop :=
  ∀ k, T k → ∃ w, k = tokenOpen :: (w ++ [tokenClose]) ∧ ∀ c ∈ w, isTokenNameChar c

/-- Every opening character of the text begins a token of the family. -/
def Intact (T : Text → Prop) (t : Text) : Prop :=
  ∀ s v, t = s ++ tokenOpen :: v → ∃ k, T k ∧ k <+: tokenOpen :: v

def Stops (t : Text) : Prop := ∀ c ∈ t.head?, isTokenChar c = false

variable {T T' : Text → Prop} {s t k : Text} {c : Char}

theorem isTokenChar_of_mem (hT : TokenLike T) (hk : T k) (hc : c ∈ k) : isTokenChar c := by
  obtain ⟨w, rfl, hw⟩ := hT k hk
  simp only [List.mem_cons, List.mem_append, List.not_mem_nil, or_false] at hc
  rcases hc with rfl | hc | rfl
  · decide
  · simp [isTokenChar, hw c hc]
  · decide

theorem TokenLike.not_mem (hT : TokenLike T) (hk : T k) (hc : isTokenChar c = false) : c ∉ k :=
  not_mem_of_class (fun _ ↦ isTokenChar_of_mem hT hk) hc

theorem not_isTokenChar_of_isBlank (h : Text.isBlank c) : isTokenChar c = false := by
  have hident := not_isIdentChar_of_isBlank h
  rw [Bool.eq_false_iff]
  intro hc
  simp only [isTokenChar, isTokenNameChar, hident, Bool.false_and, Bool.false_or, Bool.or_eq_true,
    beq_iff_eq] at hc
  rcases hc with rfl | rfl <;> revert h <;> decide

theorem stops_nil : Stops [] := by simp [Stops]

theorem stops_cons (hc : isTokenChar c = false) : Stops (c :: t) := by simpa [Stops] using hc

theorem Stops.blank_append (ht : Stops t) (hs : ∀ c ∈ s, Text.isBlank c) : Stops (s ++ t) := by
  cases s with
  | nil => exact ht
  | cons c s => exact stops_cons (not_isTokenChar_of_isBlank (hs c (by simp)))

theorem stops_sign {s : String} (h : s.toList.head?.any fun c ↦ !isTokenChar c) :
    Stops (Text.of s ++ t) := by
  rw [Text.of]
  cases hs : s.toList with
  | nil => simp [hs] at h
  | cons c s => exact stops_cons (by simpa [hs] using h)

theorem stops_lineEnd (ht : t = [] ∨ t = ['\n']) : Stops t := by
  rcases ht with rfl | rfl
  · exact stops_nil
  · exact stops_cons (by decide)

theorem stops_of_blank (hs : ∀ c ∈ s, Text.isBlank c) : Stops s := by
  simpa using stops_nil.blank_append hs

theorem Intact.mono (h : Intact T t) (hTT' : ∀ k, T k → T' k) : Intact T' t := by
  intro s v ht
  obtain ⟨k, hk, hprefix⟩ := h s v ht
  exact ⟨k, hTT' k hk, hprefix⟩

theorem intact_of_not_mem (h : tokenOpen ∉ t) : Intact T t := by
  rintro s v rfl
  simp at h

theorem intact_sign {s : String} (h : tokenOpen ∉ s.toList) : Intact T (Text.of s) :=
  intact_of_not_mem h

theorem intact_of_blank (hs : ∀ c ∈ s, Text.isBlank c) : Intact T s :=
  intact_of_not_mem (not_mem_of_class hs (by decide))

theorem not_mem_of_intact_empty (h : Intact (fun _ ↦ False) t) : tokenOpen ∉ t := by
  intro hmem
  obtain ⟨s, v, ht⟩ := List.append_of_mem hmem
  obtain ⟨k, hk, -⟩ := h s v ht
  exact hk

theorem Intact.of_append (h : Intact T (s ++ t)) : Intact T t := by
  rintro s' v rfl
  exact h (s ++ s') v (by simp)

theorem Intact.of_cons (h : Intact T (c :: t)) : Intact T t := Intact.of_append (s := [c]) h

theorem Intact.append (hs : Intact T s) (ht : Intact T t) : Intact T (s ++ t) := by
  intro a v h
  rcases List.append_eq_append_iff.mp h with ⟨a', rfl, rfl⟩ | ⟨a', rfl, hv⟩
  · exact ht a' v rfl
  · cases a' with
    | nil => exact ht [] v hv.symm
    | cons d a' =>
      obtain ⟨rfl, rfl⟩ := List.cons.inj hv
      obtain ⟨k, hk, hprefix⟩ := hs a a' rfl
      exact ⟨k, hk, hprefix.trans (List.prefix_append (tokenOpen :: a') t)⟩

theorem intact_cons (hc : c ≠ tokenOpen) : Intact T (c :: t) ↔ Intact T t := by
  refine ⟨Intact.of_cons, fun h ↦ ?_⟩
  have hcons : Intact T [c] := intact_of_not_mem (by simpa using hc.symm)
  exact hcons.append h

/-- A token that begins before a stop ends before it. -/
theorem Intact.left (h : Intact T (s ++ t)) (hT : TokenLike T) (ht : Stops t) : Intact T s := by
  rintro a v rfl
  obtain ⟨k, hk, hprefix⟩ := h a (v ++ t) (by simp)
  refine ⟨k, hk, ?_⟩
  rcases List.prefix_or_prefix_of_prefix hprefix (List.prefix_append (tokenOpen :: v) t) with h | h
  · exact h
  · obtain ⟨d, rfl⟩ := h
    cases d with
    | nil => simp
    | cons d ds =>
      have hd : d ∈ t.head? := by
        obtain ⟨e, he⟩ := (List.prefix_append_right_inj _).mp hprefix
        simp [← he]
      have htoken := isTokenChar_of_mem hT hk (c := d) (by simp)
      simp [ht d hd] at htoken

theorem intact_append_cons (hT : TokenLike T) (hc : isTokenChar c = false) :
    Intact T (s ++ c :: t) ↔ Intact T s ∧ Intact T t := by
  refine ⟨fun h ↦ ⟨h.left hT (stops_cons hc), h.of_append.of_cons⟩, fun h ↦ h.1.append ?_⟩
  have hopen : isTokenChar tokenOpen := by decide
  exact (intact_cons (ne_of_class hopen hc).symm).mpr h.2

theorem Intact.left_snoc (h : Intact T (s ++ c :: t)) (hT : TokenLike T)
    (hc : isTokenChar c = false) : Intact T (s ++ [c]) :=
  (intact_append_cons hT hc).mpr ⟨h.left hT (stops_cons hc), intact_of_not_mem (by simp)⟩

/-- A token that begins before a stretch without closing characters, some character of which no
token holds, ends before it. -/
theorem Intact.left_of_mem {u r : Text} (h : Intact T (s ++ (u ++ r))) (hT : TokenLike T)
    (hc : c ∈ u) (hclose : tokenClose ∉ u) (hno : isTokenChar c = false) : Intact T s := by
  rintro a v rfl
  obtain ⟨k, hk, hprefix⟩ := h a (v ++ (u ++ r)) (by simp)
  refine ⟨k, hk, ?_⟩
  have hshort := List.prefix_append (tokenOpen :: v) (u ++ r)
  rcases List.prefix_or_prefix_of_prefix hprefix hshort with h | h
  · exact h
  · obtain ⟨d, rfl⟩ := h
    have hd : d <+: u ++ r := (List.prefix_append_right_inj _).mp hprefix
    rcases List.prefix_or_prefix_of_prefix hd (List.prefix_append u r) with h | h
    · cases hlast : d.getLast? with
      | none => simp [List.getLast?_eq_none_iff.mp hlast]
      | some e =>
        obtain ⟨w, hw, -⟩ := hT _ hk
        have he : e = tokenClose := by
          have hend := congrArg List.getLast? hw
          simpa [List.getLast?_cons, hlast] using hend
        exact absurd (h.subset (List.mem_of_getLast? hlast)) (he ▸ hclose)
    · have htoken := isTokenChar_of_mem hT hk (c := c) (by simp [h.subset hc])
      simp [hno] at htoken

@[elab_as_elim]
theorem Intact.induction {P : Text → Prop} (hT : TokenLike T) (nil : P [])
    (plain : ∀ c t, c ≠ tokenOpen → Intact T t → P t → P (c :: t))
    (token : ∀ k t, T k → Intact T t → P t → P (k ++ t)) (h : Intact T t) : P t := by
  induction hn : t.length using Nat.strongRecOn generalizing t with
  | _ n ih =>
    cases t with
    | nil => exact nil
    | cons c t =>
      by_cases hc : c = tokenOpen
      · -- The whole token is read at once, so the induction is on the length.
        subst hc
        obtain ⟨k, hk, s, hs⟩ := h [] t rfl
        rw [← hs] at h hn ⊢
        have hpos : 0 < k.length := by
          obtain ⟨w, rfl, -⟩ := hT k hk
          simp
        exact token k s hk h.of_append (ih s.length (by simp [← hn]; omega) h.of_append rfl)
      · exact plain c t hc h.of_cons (ih t.length (by simp [← hn]) h.of_cons rfl)

theorem TokenLike.intact (hT : TokenLike T) (hk : T k) : Intact T k := by
  obtain ⟨w, rfl, hw⟩ := hT k hk
  rintro (_ | ⟨d, s⟩) v hv
  · exact ⟨_, hk, hv ▸ List.prefix_rfl⟩
  · have hmem : tokenOpen ∈ w ++ [tokenClose] := by simp [(List.cons.inj hv).2]
    simp only [List.mem_append, List.mem_singleton] at hmem
    rcases hmem with h | h
    · exact absurd h (not_mem_of_class hw (by decide))
    · exact absurd h (by decide)

/-- Where every edit leaves the tokens before it whole and brings in whole tokens, the edits do. The
text read so far may end inside a token, so the edits are followed with it in front. -/
theorem Intact.edits {E : (b u r v : Text) → Prop} (hTT' : ∀ k, T k → T' k)
    (hE : ∀ {b u r v w}, E b u r v → Intact T (w ++ (u ++ r)) → Intact T' (w ++ v))
    {b w t' : Text} (h : Edits E b t t') (ht : Intact T (w ++ t)) : Intact T' (w ++ t') := by
  induction h generalizing w with
  | nil => exact ht.mono hTT'
  | @keep b t t' c _ ih =>
    have hw : Intact T (w ++ [c] ++ t) := by simpa using ht
    simpa using ih hw
  | @edit b u r v t' he _ ih =>
    have hr : Intact T ([] ++ r) := Intact.of_append (Intact.of_append ht)
    rw [← List.append_assoc]
    exact (hE he ht).append (ih hr)

/-- Edits that begin with a character that no token holds do not begin inside a token. -/
theorem edits_token_append {E : (b u r v : Text) → Prop}
    (hE : ∀ {b u r v}, E b u r v → ∃ c u', u = c :: u' ∧ isTokenChar c = false) {b t' : Text}
    (hk : ∀ c ∈ k, isTokenChar c) (h : Edits E b (k ++ t) t') :
    ∃ t'', t' = k ++ t'' ∧ Edits E (k.reverse ++ b) t t'' := by
  induction k generalizing b t' with
  | nil => exact ⟨t', rfl, h⟩
  | cons c k ih =>
    rw [List.cons_append] at h
    generalize hl : c :: (k ++ t) = l at h
    cases h with
    | nil => simp at hl
    | keep h =>
      obtain ⟨rfl, rfl⟩ := List.cons.inj hl
      obtain ⟨t'', rfl, hrest⟩ := ih (fun d hd ↦ hk d (by simp [hd])) h
      exact ⟨t'', rfl, by simpa using hrest⟩
    | edit he _ =>
      obtain ⟨d, u, rfl, hd⟩ := hE he
      obtain ⟨rfl, -⟩ := List.cons.inj hl
      simp [hk c (by simp)] at hd

theorem Intact.trimStart (h : Intact T t) : Intact T (Text.trimStart t) := by
  obtain ⟨s, hs, -⟩ := Text.exists_trimStart t
  rw [hs] at h
  exact h.of_append

theorem Intact.trimEnd (h : Intact T t) (hT : TokenLike T) : Intact T (Text.trimEnd t) := by
  obtain ⟨s, hs, hblank⟩ := Text.exists_trimEnd t
  rw [hs] at h
  exact h.left hT (stops_of_blank hblank)

theorem Intact.trim (h : Intact T t) (hT : TokenLike T) : Intact T (Text.trim t) :=
  h.trimStart.trimEnd hT

theorem Intact.flatMap {f : Char → Text} (h : Intact T t) (hT : TokenLike T)
    (hfix : ∀ c, isTokenChar c → f c = [c]) (hopen : ∀ c, tokenOpen ∈ f c → c = tokenOpen) :
    Intact T (t.flatMap f) := by
  induction t with
  | nil => exact h
  | cons c t ih =>
    rw [List.flatMap_cons]
    by_cases hc : c = tokenOpen
    · subst hc
      obtain ⟨k, hk, z, hz⟩ := h [] t rfl
      have hself : k.flatMap f = k := by
        rw [List.flatMap_def, List.map_congr_left (fun c hc ↦ hfix c (isTokenChar_of_mem hT hk hc)),
          ← List.flatMap_def, List.flatMap_singleton']
      have hprefix : k <+: tokenOpen :: t.flatMap f := by
        have hflat := congrArg (List.flatMap f) hz
        rw [List.flatMap_append, hself, List.flatMap_cons, hfix _ (by decide)] at hflat
        exact ⟨_, hflat⟩
      rw [hfix _ (by decide)]
      rintro (_ | ⟨d, s⟩) v hv
      · obtain ⟨-, rfl⟩ := List.cons.inj hv
        exact ⟨k, hk, hprefix⟩
      · exact ih h.of_cons s v (List.cons.inj hv).2
    · exact Intact.append (intact_of_not_mem (mt (hopen c) hc)) (ih h.of_cons)

theorem Intact.map {f : Char → Char} (h : Intact T t) (hT : TokenLike T)
    (hfix : ∀ c, isTokenChar c → f c = c) (hopen : ∀ c, f c = tokenOpen → c = tokenOpen) :
    Intact T (t.map f) := by
  rw [List.map_eq_flatMap]
  refine h.flatMap hT (fun c hc ↦ by rw [hfix c hc]) (fun c hc ↦ hopen c ?_)
  exact (List.mem_singleton.mp hc).symm

theorem Intact.dropQuotes (h : Intact T t) (hT : TokenLike T) : Intact T (Text.dropQuotes t) := by
  have hdrop : Text.dropQuotes t = t.flatMap fun c ↦ if c = '"' then [] else [c] := by
    rw [Text.dropQuotes]
    induction t with
    | nil => rfl
    | cons c t ih =>
      by_cases hc : c = '"'
      · simpa [hc] using ih h.of_cons
      · simpa [hc] using ih h.of_cons
  rw [hdrop]
  refine h.flatMap hT (fun c hc ↦ if_neg (ne_of_class hc (by decide))) (fun c hc ↦ ?_)
  split at hc
  · simp at hc
  · exact (List.mem_singleton.mp hc).symm

theorem intact_unlines (hT : TokenLike T) {ls : List Text} :
    Intact T (Text.unlines ls) ↔ ∀ l ∈ ls, Intact T l := by
  induction ls with
  | nil => simpa [Text.unlines] using intact_of_not_mem (by simp)
  | cons l ls ih =>
    by_cases hls : ls = []
    · simp [hls, Text.unlines_singleton]
    · rw [Text.unlines_cons hls, List.forall_mem_cons, ← ih]
      refine ⟨fun h ↦ ⟨h.left hT (stops_cons (by decide)), h.of_append.of_cons⟩, fun h ↦ ?_⟩
      exact h.1.append ((intact_cons (by decide)).mpr h.2)

theorem intact_iff_lines (hT : TokenLike T) : Intact T t ↔ ∀ l ∈ Text.lines t, Intact T l := by
  rw [← intact_unlines hT, Text.unlines_lines]

end DiagramRepair
