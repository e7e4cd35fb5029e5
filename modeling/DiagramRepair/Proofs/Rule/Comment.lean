import DiagramRepair.Rule.Comment
import DiagramRepair.Proofs.Rule.Words
import DiagramRepair.Proofs.Text.Lines
import Mathlib.Tactic.SplitIfs

namespace DiagramRepair

open Pattern Rule

namespace Template

def QuotesEscaped (t : Text) : Prop := ∀ s v, t = s ++ '\\' :: v → v.head? = some '"'

variable {t : Text}

theorem QuotesEscaped.cons {c : Char} (hc : c = '\\' → t.head? = some '"') (h : QuotesEscaped t) :
    QuotesEscaped (c :: t) := by
  rintro (_ | ⟨d, s⟩) v ht
  · obtain ⟨hd, rfl⟩ := List.cons.inj ht
    exact hc hd
  · exact h s v (List.cons.inj ht).2

theorem QuotesEscaped.append_of_not_mem {s : Text} (hs : '\\' ∉ s) (h : QuotesEscaped t) :
    QuotesEscaped (s ++ t) := by
  induction s with
  | nil => exact h
  | cons c s ih =>
    obtain ⟨hc, hs⟩ := not_or.mp (mt List.mem_cons.mpr hs)
    exact .cons (fun h ↦ absurd h.symm hc) (ih hs)

theorem QuotesEscaped.append {s : Text} (hs : Text.BackslashAtEnd s) (h : QuotesEscaped t)
    (ht : t.head? = some '"') : QuotesEscaped (s ++ t) := by
  induction s with
  | nil => exact h
  | cons c s ih =>
    refine .cons ?_ (ih (hs.sublist (List.sublist_cons_self c s)))
    rintro rfl
    rwa [hs [] s rfl]

theorem QuotesEscaped.of_append {s : Text} (h : QuotesEscaped (s ++ t)) : QuotesEscaped t := by
  rintro a v rfl
  exact h (s ++ a) v (by simp)

-- The general equation of `items` is too large to rewrite with, so its cases for the two kinds of
-- token that occur here are stated by themselves.
theorem items_char (stop position : Nat) (c : Char) (ks : List Token) :
    items stop .text (⟨position, false, c⟩ :: ks) = (items stop .text ks).map (.char c :: ·) := by
  delta items
  rfl

theorem items_escapedQuote (stop position : Nat) (ks : List Token) :
    items stop .text (⟨position, true, '"'⟩ :: ks) =
      (items stop .text ks).map (.char '\\' :: .char '"' :: ·) := by
  delta items
  rfl

theorem items_of_quotesEscaped (h : QuotesEscaped t) (stop position : Nat) :
    ∃ ks its, tokenize position t = .ok ks ∧ items stop .text ks = .ok its ∧
      ∀ whole, expand whole its = t := by
  induction hn : t.length using Nat.strongRecOn generalizing t position with
  | _ n ih =>
    match t with
    | [] => exact ⟨[], [], rfl, rfl, fun _ ↦ rfl⟩
    | c :: t =>
      by_cases hc : c = '\\'
      · subst hc
        obtain ⟨t, rfl⟩ := List.head?_eq_some_iff.mp (h [] t rfl)
        have ht : QuotesEscaped t := QuotesEscaped.of_append (s := ['\\', '"']) h
        have hlen : t.length < n := by
          rw [← hn, List.length_cons, List.length_cons]
          omega
        obtain ⟨ks, its, hks, hits, hexpand⟩ := ih t.length hlen ht (position + 2) rfl
        refine ⟨⟨position, true, '"'⟩ :: ks, .char '\\' :: .char '"' :: its, ?_, ?_, ?_⟩
        · rw [tokenize, hks]
          rfl
        · rw [items_escapedQuote, hits]
          rfl
        · intro whole
          simpa [expand] using hexpand whole
      · have ht : QuotesEscaped t := QuotesEscaped.of_append (s := [c]) h
        obtain ⟨ks, its, hks, hits, hexpand⟩ :=
          ih t.length (by simp [← hn]) ht (position + 1) rfl
        refine ⟨⟨position, false, c⟩ :: ks, .char c :: its, ?_, ?_, ?_⟩
        · simp [tokenize, hc, hks, Except.map]
        · rw [items_char, hits]
          rfl
        · intro whole
          simpa [expand] using hexpand whole

theorem parse_of_quotesEscaped (h : QuotesEscaped t) :
    ∃ its, parse t = .ok its ∧ ∀ whole, expand whole its = t := by
  obtain ⟨ks, its, hks, hits, hexpand⟩ := items_of_quotesEscaped h t.length 0
  refine ⟨its, ?_, hexpand⟩
  rw [parse, hks]
  exact hits

end Template

namespace Rule

inductive LabelsEdge (comment : Text) : (b u r v : Text) → Prop
  | quoted {b s label s' r : Text} (hs : Blank s) (hlabel : '"' ∉ label) (hs' : Blank s') :
    LabelsEdge comment b
      (Text.of "--" ++ (s ++ (Text.of "\"" ++ (label ++ (Text.of "\"" ++ (s' ++ Text.of "-->"))))))
      r
      (Text.of "-- \"" ++ (Text.trim label ++ '(' :: (comment ++ Text.of ")\" -->")))
  | unquoted {b s label s' r : Text} (hs : Blank s)
    (hlabel : IsOpenLabel label (s' ++ (Text.of "-->" ++ r))) (hs' : Blank s') :
    LabelsEdge comment b (Text.of "--" ++ (s ++ (label ++ (s' ++ Text.of "-->")))) r
      (Text.of "-- \"" ++ (Text.trim label ++ '(' :: (comment ++ Text.of ")\" -->")))
  | bare {b s r : Text} (hs : Blank s) :
    LabelsEdge comment b (s ++ Text.of "-->") r
      (Text.of " -- \"" ++ (comment ++ Text.of "\" -->"))

def singleQuotes (t : Text) : Text := t.map fun c ↦ if c = '"' then '\'' else c

end Rule

theorem Text.BackslashAtEnd.singleQuotes {t : Text} (h : Text.BackslashAtEnd t) :
    Text.BackslashAtEnd (Rule.singleQuotes t) := by
  refine h.map fun c hc ↦ ?_
  split at hc
  · simp at hc
  · exact hc

namespace Rule

inductive MergesComment : Text → Text → Prop
  | mk {b u r v body s marks s' comment s'' e : Text}
    (hbody : b.reverse ++ (u ++ r) = body ++ [';']) (hs : Blank s)
    (hmarks : marks ≠ [] ∧ ∀ c ∈ marks, c = '%' ∨ c = '#') (hs' : Blank s')
    (hcomment : comment ≠ [] ∧ '\n' ∉ comment) (hs'' : Blank s'') (he : e = [] ∨ e = ['\n'])
    (hedit : LabelsEdge (singleQuotes comment) b u r v) :
    MergesComment (body ++ ';' :: (s ++ (marks ++ (s' ++ (comment ++ (s'' ++ e))))))
      (b.reverse ++ (v ++ r))

theorem appendComment_quoted (comment : Text) {m : Match} (hm : m.Of quotedEdgeLabelPattern) :
    LabelsEdge comment m.before m.whole m.after (appendComment comment m) := by
  obtain ⟨gs, h, hgs⟩ := hm
  simp only [quotedEdgeLabelPattern, many, takes_append_sign, takes_append_blanks,
    takes_append_group, takes_star_noneOf, takes_sign, existsAndEq, and_true, true_and,
    List.append_assoc, and_assoc] at h
  obtain ⟨s', label, s, hu, hs', rfl, hlabel, hs⟩ := h
  rw [hu]
  simp only [appendComment, Match.group, hgs, List.append_assoc]
  exact .quoted hs (hlabel _ (by decide)) hs'

theorem appendComment_unquoted (comment : Text) {m : Match} (hm : m.Of unquotedEdgeLabelPattern) :
    LabelsEdge comment m.before m.whole m.after (appendComment comment m) := by
  obtain ⟨gs, h, hgs⟩ := hm
  simp only [unquotedEdgeLabelPattern, takes_append_sign, takes_append_blanks,
    takes_append_group, takes_openLabel, takes_separator, existsAndEq, true_and,
    List.append_assoc, and_assoc] at h
  obtain ⟨s', label, s, hu, hs', rfl, hlabel, hs, -⟩ := h
  rw [hu]
  simp only [appendComment, Match.group, hgs, List.append_assoc]
  exact .unquoted hs hlabel hs'

/-- A comment whose backslashes stand at its end goes into the label as it is: every backslash of
the template stands before the closing quote, so it is read and stands for itself. -/
theorem labelBareEdge_eq {comment : Text} (hcomment : Text.BackslashAtEnd comment) (body : Text) :
    labelBareEdge comment body = .ok (bareEdgePattern.replaceFirst
      (fun _ ↦ Text.of " -- \"" ++ comment ++ Text.of "\" -->") body) := by
  have hend : Template.QuotesEscaped (Text.of "\" -->") := by
    rintro s v h
    have hmem : '\\' ∈ Text.of "\" -->" := by simp [h]
    exact absurd hmem (by decide)
  have htemplate : Template.QuotesEscaped (Text.of " -- \"" ++ comment ++ Text.of "\" -->") := by
    rw [List.append_assoc]
    exact (hend.append hcomment rfl).append_of_not_mem (by decide)
  obtain ⟨its, hits, hexpand⟩ := Template.parse_of_quotesEscaped htemplate
  simp only [labelBareEdge, hits, bind, Except.bind, pure, Except.pure, hexpand]

theorem labelBareEdge_ok {comment body : Text} (hcomment : Text.BackslashAtEnd comment)
    (hbody : Text.includes (Text.of "-->") body) :
    ∃ b u r v, labelBareEdge comment body = .ok (b.reverse ++ (v ++ r)) ∧
      body = b.reverse ++ (u ++ r) ∧ LabelsEdge comment b u r v := by
  rw [labelBareEdge_eq hcomment]
  rcases replaceFirst_eq (p := bareEdgePattern) (by decide)
    (fun _ ↦ Text.of " -- \"" ++ comment ++ Text.of "\" -->") body with
    ⟨hnone, -⟩ | ⟨m, hm, -, hbody', hreplace⟩
  · obtain ⟨s, r, hsr⟩ := Text.includes_iff.mp hbody
    rw [List.append_assoc] at hsr
    refine absurd ?_ (search?_eq_none (by decide) hnone hsr.symm [])
    simp only [bareEdgePattern, takes_append_sign, takes_blanks]
    exact ⟨[], rfl, by simp, trivial⟩
  · obtain ⟨gs, h, -⟩ := hm
    simp only [bareEdgePattern, takes_append_sign, takes_blanks] at h
    obtain ⟨s, hu, hs, -⟩ := h
    refine ⟨m.before, m.whole, m.after, _, congrArg Except.ok hreplace, hbody', ?_⟩
    rw [hu, List.append_assoc]
    exact .bare hs

theorem exists_labelsEdge_replaceFirst {p : Pattern} {comment statement : Text} (hp : p.steady)
    (hoccurs : p.occursIn statement)
    (hedit : ∀ m : Match, m.Of p →
      LabelsEdge comment m.before m.whole m.after (appendComment comment m)) :
    ∃ b u r v, statement = b.reverse ++ (u ++ r) ∧ LabelsEdge comment b u r v ∧
      p.replaceFirst (appendComment comment) statement = b.reverse ++ (v ++ r) := by
  rcases replaceFirst_eq hp (appendComment comment) statement with
    ⟨hnone, -⟩ | ⟨m, hm, -, hstatement, hreplace⟩
  · simp [occursIn, hnone] at hoccurs
  · exact ⟨m.before, m.whole, m.after, _, hstatement, hedit m hm, hreplace⟩

theorem of_trailingCommentPattern {line : Text} {m : Match}
    (hm : trailingCommentPattern.match? line = some m) :
    m.group "comment" <:+: line ∧ ∀ {b u r v : Text}, m.group "body" = b.reverse ++ (u ++ r) →
      LabelsEdge (singleQuotes (m.group "comment")) b u r v →
      MergesComment line (b.reverse ++ (v ++ r)) := by
  obtain ⟨⟨gs, h, hgs⟩, -, hline⟩ := of_match? (by decide) hm
  simp only [trailingCommentPattern, takes_append_lastLineEnd, takes_append_blanks,
    takes_append_group, takes_many1Lazy_any, takes_append_many1_one, oneOf, takes_append_sign,
    manyLazy, takes_star_any, takes_textStart, existsAndEq, and_true, true_and, and_assoc,
    List.append_assoc, List.nil_append] at h
  obtain ⟨he, s'', comment, s', marks, s, body, hu, hs'', rfl, hcomment, hcomment', hs', hmarks,
    hmarks', hs, -, -⟩ := h
  have hgroup : m.group "body" = body ++ [';'] ∧ m.group "comment" = comment := by
    simp only [Match.group, hgs]
    exact ⟨rfl, rfl⟩
  replace hline : line =
      body ++ ';' :: (s ++ (marks ++ (s' ++ (comment ++ (s'' ++ m.after))))) := by
    simp only [hu, List.append_assoc] at hline
    exact hline
  rw [hgroup.1, hgroup.2]
  constructor
  · exact ⟨body ++ ';' :: (s ++ (marks ++ s')), s'' ++ m.after, by simp [hline]⟩
  · intro b u r v hur hedit
    rw [hline]
    exact .mk hur.symm hs ⟨hmarks, by simpa [among] using hmarks'⟩ hs' ⟨hcomment, hcomment'⟩ hs''
      he hedit

theorem mergeTrailingComments_ok {line : Text} (hline : Text.BackslashAtEnd line) :
    ∃ t, mergeTrailingComments line = .ok t ∧ (t = line ∨ MergesComment line t) := by
  rw [mergeTrailingComments]
  split
  · exact ⟨line, rfl, .inl rfl⟩
  · rename_i m hm
    obtain ⟨hpart, hmerge⟩ := of_trailingCommentPattern hm
    simp only
    split_ifs with harrow hquoted hunquoted
    · exact ⟨line, rfl, .inl rfl⟩
    · obtain ⟨b, u, r, v, hur, hedit, hreplace⟩ := exists_labelsEdge_replaceFirst (by decide)
        hquoted fun m ↦ appendComment_quoted (singleQuotes _)
      exact ⟨_, congrArg Except.ok hreplace, .inr (hmerge hur hedit)⟩
    · obtain ⟨b, u, r, v, hur, hedit, hreplace⟩ := exists_labelsEdge_replaceFirst (by decide)
        hunquoted fun m ↦ appendComment_unquoted (singleQuotes _)
      exact ⟨_, congrArg Except.ok hreplace, .inr (hmerge hur hedit)⟩
    · have hend := (hline.sublist hpart.sublist).singleQuotes
      obtain ⟨b, u, r, v, hok, hur, hedit⟩ := labelBareEdge_ok hend (by simpa using harrow)
      exact ⟨_, hok, .inr (hmerge hur hedit)⟩

end Rule

end DiagramRepair
