import Shardwise.Context

/-!
# Contexts that are done

A context is done when it or a context that it derives from was cancelled, or has a
deadline that has come.  `Context.Done` says so about the links of its chain, whichever
comes first, and `Context.check_cases` says that `Context.check` fails just then, and
always because the context was cancelled.
-/

namespace Shardwise

/-- The context of the link was cancelled, or its own deadline has come. -/
def Link.Ended (flags : Flags) (now : Int) (link : Link) : Prop :=
  link.flag ∈ flags.raised ∨ ∃ deadline, link.deadline = some deadline ∧ deadline ≤ now

namespace Context

variable {flags : Flags} {now : Int}

/-- The context or one that it derives from has ended. -/
def Done (ctx : Context) (flags : Flags) (now : Int) : Prop :=
  ∃ link ∈ ctx.chain, link.Ended flags now

theorem checkLink_cases (flags : Flags) (now : Int) (link : Link) :
    (link.Ended flags now ∧ ∃ reason, checkLink flags now link = .error (.canceled reason)) ∨
      (¬ link.Ended flags now ∧ checkLink flags now link = .ok ()) := by
  unfold checkLink Link.Ended
  by_cases hraised : link.flag ∈ flags.raised
  · exact .inl ⟨.inl hraised, _, if_pos hraised⟩
  · rw [if_neg hraised]
    cases link.deadline with
    | none =>
      refine .inr ⟨?_, rfl⟩
      rintro (hflag | ⟨deadline, hdeadline, -⟩)
      · exact hraised hflag
      · cases hdeadline
    | some deadline =>
      by_cases hcome : deadline ≤ now
      · exact .inl ⟨.inr ⟨deadline, rfl, hcome⟩, _, if_pos hcome⟩
      · refine .inr ⟨?_, if_neg hcome⟩
        rintro (hflag | ⟨_, ⟨⟩, hless⟩)
        · exact hraised hflag
        · exact hcome hless

theorem forM_checkLink_cons (flags : Flags) (now : Int) (link : Link) (links : List Link) :
    (link :: links).forM (checkLink flags now) =
      checkLink flags now link >>= fun _ => links.forM (checkLink flags now) :=
  rfl

/-- The first link that has ended gives the reason. -/
theorem forM_checkLink_cases (flags : Flags) (now : Int) (links : List Link) :
    ((∃ link ∈ links, link.Ended flags now) ∧
        ∃ reason, links.forM (checkLink flags now) = .error (.canceled reason)) ∨
      ((¬ ∃ link ∈ links, link.Ended flags now) ∧
        links.forM (checkLink flags now) = .ok ()) := by
  induction links with
  | nil => exact .inr ⟨by simp, rfl⟩
  | cons link links ih =>
    simp only [List.mem_cons, exists_eq_or_imp]
    rw [forM_checkLink_cons]
    rcases checkLink_cases flags now link with ⟨hended, reason, hlink⟩ | ⟨hlive, hlink⟩
    · rw [hlink]
      exact .inl ⟨.inl hended, reason, rfl⟩
    · rw [hlink]
      rcases ih with ⟨hended, hrest⟩ | ⟨hrest, hlinks⟩
      · exact .inl ⟨.inr hended, hrest⟩
      · exact .inr ⟨not_or.mpr ⟨hlive, hrest⟩, hlinks⟩

/-- The check of a context fails if it is done, and passes if it is not. -/
theorem check_cases (ctx : Context) (flags : Flags) (now : Int) :
    (ctx.Done flags now ∧ ∃ reason, ctx.check flags now = .error (.canceled reason)) ∨
      (¬ ctx.Done flags now ∧ ctx.check flags now = .ok ()) :=
  forM_checkLink_cases flags now ctx.chain

theorem Done.check {ctx : Context} (h : ctx.Done flags now) :
    ∃ reason, ctx.check flags now = .error (.canceled reason) := by
  rcases ctx.check_cases flags now with ⟨-, hcheck⟩ | ⟨hlive, -⟩
  · exact hcheck
  · exact absurd h hlive

theorem check_eq_ok_iff {ctx : Context} : ctx.check flags now = .ok () ↔ ¬ ctx.Done flags now := by
  rcases ctx.check_cases flags now with ⟨hdone, reason, hcheck⟩ | ⟨hlive, hcheck⟩
  · rw [hcheck]
    simp [hdone]
  · rw [hcheck]
    simp [hlive]

theorem canceled_of_check {ctx : Context} {error : Error}
    (h : ctx.check flags now = .error error) : ∃ reason, error = .canceled reason := by
  rcases ctx.check_cases flags now with ⟨-, reason, hcheck⟩ | ⟨-, hcheck⟩
  · cases hcheck.symm.trans h
    exact ⟨reason, rfl⟩
  · cases hcheck.symm.trans h

end Context

end Shardwise
