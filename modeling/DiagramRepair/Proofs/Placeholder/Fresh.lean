import DiagramRepair.Proofs.Placeholder.Restore

namespace DiagramRepair.Registry

variable {r : Registry} {s t d : Text} {c : Char}

theorem nonce_infix_shaped (r : Registry) (d : Text) : r.nonce <:+: r.shaped d :=
  ⟨tokenOpen :: (r.tag ++ ['_']), '_' :: (d ++ [tokenClose]), by simp [shaped, stem]⟩

theorem restore_of_unused_nonce (h : ¬ r.nonce <:+: t) : r.restore t = t := by
  have hrestored : Restored r t t := by
    induction t with
    | nil => exact .nil
    | cons c t ih =>
      refine .keep (fun d t₀ _ _ hshaped ↦ h ?_) (ih fun htail ↦ h ?_)
      · rw [hshaped]
        exact (nonce_infix_shaped r d).trans (List.prefix_append _ _).isInfix
      · exact htail.trans (List.suffix_cons c t).isInfix
  exact hrestored.eq_restore

theorem not_mem_shaped (hr : r.Proper) (hc : isTokenChar c = false)
    (hdigit : Text.isDecimalDigit c = false) (hd : ∀ c ∈ d, Text.isDecimalDigit c) :
    c ∉ r.shaped d := by
  refine not_mem_of_class (p := fun c ↦ isTokenChar c || Text.isDecimalDigit c) (fun e he ↦ ?_)
    (by simp [hc, hdigit])
  simp only [shaped, List.mem_cons, List.mem_append, List.not_mem_nil, or_false] at he
  rcases he with rfl | he | he | rfl
  · rfl
  · simp [isTokenChar, hr.stem e he]
  · simp [hd e he]
  · rfl

theorem restore_append_cons (hc : ∀ d, (∀ c ∈ d, Text.isDecimalDigit c) → c ∉ r.shaped d) :
    r.restore (s ++ c :: t) = r.restore s ++ c :: r.restore t := by
  have hrestored : ∀ {s s'}, Restored r s s' →
      Restored r (s ++ c :: t) (s' ++ c :: r.restore t) := by
    intro s s' h
    induction h with
    | nil =>
      refine .keep (fun d t₀ _ hd hshaped ↦ hc d hd ?_) (restored_restore r t)
      obtain ⟨rfl, -⟩ := List.cons.inj hshaped
      exact List.mem_cons_self
    | @keep e s s' hno _ ih =>
      refine .keep (fun d t₀ hne hd hshaped ↦ ?_) ih
      obtain ⟨s₀, hs, -⟩ := Text.exists_of_not_mem_left (p := e :: s) (hc d hd) hshaped.symm
      exact hno d s₀ hne hd hs
    | @piece d v s s' hne hd hv _ ih =>
      rw [List.append_assoc, List.append_assoc]
      exact .piece hne hd hv ih
  exact (hrestored (restored_restore r s)).eq_restore

end DiagramRepair.Registry
