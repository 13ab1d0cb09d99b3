/-
What showing later notes does to the notes that a sprite has shown before. The
moves of a later showing are out of the way of an earlier one, whichever of the
two periods comes first in time, with one exception. The first move of a period
starts one interval before it, and there the sprite may still be showing another
note: that is so when the one period begins where the other one ends. The move
is then in force at the last instant of the earlier period, and the sprite jumps
to where the next note is about to come on screen
(`Animation.undisturbed_iff`).
-/
import Storyboard.Proofs.Scroll.Placement

namespace Storyboard

namespace Animation

variable {a : Animation Rat} {lane first : Nat} {l : Lane Rat} {t : Rat}
  {log before after : List (Showing Rat)} {x x' : Showing Rat} {s : Stage Rat}

/-- No two showings on one sprite have a time in common. -/
theorem Shown.eq_of_contains (h : a.Shown lane l first log s) (hx : x ∈ log) (hx' : x' ∈ log)
    (hsame : x.sprite = x'.sprite) (ht : x.period.contains t) (ht' : x'.period.contains t) :
    x = x' := by
  by_contra hne
  have hsymm : Std.Symm fun x x' : Showing Rat =>
      x.sprite = x'.sprite → x.period.apart x'.period = true := by
    refine ⟨fun y y' hapart hsame => ?_⟩
    rw [Period.apart_comm]
    exact hapart hsame.symm
  have hapart := h.apart.forall hx hx' hne hsame
  simp only [Period.apart, Bool.or_eq_true, decide_eq_true_eq] at hapart
  rcases hapart with hafter | hbefore
  · exact absurd (le_trans hafter ht'.1) (not_le.2 ht.2)
  · exact absurd (le_trans hbefore ht.1) (not_le.2 ht'.2)

/-- One interval before a period that begins after time 0 its sprite is at the
height that its note has there. -/
theorem heightAt_before_start [Elementary Rat] (hinterval : 0 < a.sampler.interval)
    (h : a.Shown lane l first log s)
    (hseen : ∀ x ∈ log, a.sampler.Seen (a.onScreen l x.object) x.period) (hx : x ∈ log)
    (hstart : 0 < x.period.start) (ht : t + a.sampler.interval = x.period.start)
    {sprite : Sprite Rat} (hmoves : sprite.moves = a.tracks l x.sprite log) :
    sprite.heightAt t = some (.scalar (a.heightOf l x.object t)) := by
  have htime : x.period.start - a.sampler.interval = t := by linarith
  have hfirst := mem_tracks_iff.2 ⟨x, hx, rfl, first_mem_track hinterval (hseen x hx) hstart⟩
  unfold Sprite.heightAt
  rw [hmoves]
  cases hin : inForce Event.start t (a.tracks l x.sprite log) with
  | none => exact absurd htime.le (inForce_eq_none_iff.1 hin _ hfirst)
  | some e =>
      obtain ⟨hmem, hstarted⟩ := mem_of_inForce hin
      obtain ⟨x', hx', hsame, htrack⟩ := mem_tracks_iff.1 hmem
      obtain ⟨u, hu, -, rfl⟩ := Period.mem_track_iff.1 htrack
      -- the move in force starts now, so its frame is where the period begins
      have hnow : x.period.start - a.sampler.interval ≤ u - a.sampler.interval :=
        start_le_of_inForce hin hfirst htime.le
      obtain rfl : u = x.period.start := by
        have hstarted' : u - a.sampler.interval ≤ t := hstarted
        linarith
      have hcontains : x'.period.contains x.period.start := by
        obtain ⟨-, -, -, hlt⟩ := (mem_frames_iff hinterval).1 hu
        exact ⟨start_le_of_mem_frames hinterval hu, hlt⟩
      obtain rfl : x' = x := h.eq_of_contains hx' hx hsame hcontains
        ⟨le_rfl, (hseen x hx).start_lt_stop⟩
      subst htime
      exact Event.valueAt_of_le_start rfl le_rfl

/-- A lane that is animated on any stage on which its pool is new. During each
showing, at every instant that is sampled, the sprite is as high when the lane is
done as it was right after the motion of the showing was written, if and only if
this is not the last instant before a later showing on the sprite, or the other
note was just there. -/
theorem undisturbed_iff [Elementary Rat] {gear : Gear Rat} {scroll : Scroll Rat}
    {settings : Settings Rat} {duration : Rat}
    (hnew : Animation.new gear scroll settings duration = .ok a) {notes : List Rat}
    {s₀ s₂ : Stage Rat} (hpool : s₀.pools[lane]? = some (Pool.empty true))
    (hrun : (a.generateLane lane notes).apply s₀ = (s₂, none)) :
    ∃ l log, a.gear.lane lane = .ok l
      ∧ (log.map fun x => (x.object, x.period)) = a.scenes lane notes
      ∧ ∀ before x after, log = before ++ x :: after →
        ∃ s₁ sprite₁ sprite₂, a.Shows lane l s₀ (before ++ [x]) s₁ ∧ a.Shows lane l s₁ after s₂
          ∧ s₁.document.sprites[x.sprite]? = some sprite₁
          ∧ s₂.document.sprites[x.sprite]? = some sprite₂
          ∧ ∀ t ∈ a.sampler.times, x.period.contains t →
            (sprite₂.heightAt t = sprite₁.heightAt t
              ↔ ∀ x' ∈ after, x'.sprite = x.sprite → x'.period.start = x.period.stop →
                  t + a.sampler.interval = x.period.stop →
                  sprite₁.heightAt t = some (.scalar (a.heightOf l x'.object t))) := by
  have hinterval := interval_pos_of_new hnew
  obtain ⟨l, log, hl, hshows, hscenes⟩ := generateLane_shows (Edit.apply_eq_none_iff.1 hrun)
  refine ⟨l, log, hl, hscenes, fun before x after hlog => ?_⟩
  subst hlog
  have hseen : ∀ x' ∈ before ++ x :: after,
      a.sampler.Seen (a.onScreen l x'.object) x'.period :=
    fun x' hx' => (seen_of_scenes hinterval hl hscenes hx').2
  rw [List.append_cons] at hshows
  obtain ⟨s₁, hshows₁, hshows₂⟩ := shows_append_iff.1 hshows
  have hshown₁ := (shown_nil (l := l) hpool).run hinterval hshows₁
  rw [List.nil_append] at hshown₁
  have hshown₂ := hshown₁.run hinterval hshows₂
  obtain ⟨sprite₁, hget₁, hposition₁, hmoves₁⟩ := hshown₁.sprite_mem (x := x) (by simp)
  obtain ⟨sprite₂, hget₂, hposition₂, hmoves₂⟩ := hshown₂.sprite_mem (x := x) (by simp)
  refine ⟨s₁, sprite₁, sprite₂, hshows₁, hshows₂, hget₁, hget₂, fun t ht hxt => ?_⟩
  have hxseen := hseen x (by simp)
  rw [← List.append_cons] at hshown₂
  by_cases htouch : ∃ x' ∈ after, x'.sprite = x.sprite ∧ x'.period.start = x.period.stop
      ∧ t + a.sampler.interval = x.period.stop
  · -- the last instant before another showing on the sprite
    obtain ⟨x', hx', hsame, hstart, hend⟩ := htouch
    have hpositive : 0 < x.period.stop :=
      lt_of_le_of_lt (Sampler.nonneg_of_mem_times hinterval hxseen.start_mem)
        hxseen.start_lt_stop
    have hnext : ∀ x' ∈ after, x'.sprite = x.sprite → x'.period.start = x.period.stop →
        sprite₂.heightAt t = some (.scalar (a.heightOf l x'.object t)) := by
      intro x' hx' hsame hstart
      rw [← List.append_cons, ← hsame] at hmoves₂
      refine heightAt_before_start hinterval hshown₂ hseen (by simp [hx']) ?_ ?_ hmoves₂
      · rw [hstart]
        exact hpositive
      · rw [hstart]
        exact hend
    constructor
    · intro hheight x'' hx'' hsame' hstart' _
      rw [← hheight]
      exact hnext x'' hx'' hsame' hstart'
    · intro hthere
      rw [hnext x' hx' hsame hstart, hthere x' hx' hsame hstart hend]
  · -- whatever comes later is out of the way
    have hclear : a.Clear x t (a.tracks l x.sprite after) := by
      refine clear_tracks hinterval hxseen ht hxt (fun x' hx' => hseen x' (by simp [hx']))
        (fun x' hx' => hshown₂.apart_of_split (Or.inr hx')) fun x' hx' hsame hstart hend => ?_
      exact htouch ⟨x', hx', hsame, hstart, hend⟩
    have htrack : ∀ e ∈ x.period.track (a.heightOf l x.object) a.sampler.interval,
        e ∈ a.tracks l x.sprite (before ++ [x]) := fun e he =>
      mem_tracks_iff.2 ⟨x, by simp, rfl, he⟩
    have hheight : sprite₂.heightAt t = sprite₁.heightAt t := by
      unfold Sprite.heightAt
      rw [hmoves₂, hmoves₁, hposition₂, hposition₁, tracks_append,
        inForce_append_of_clear hinterval hxseen hxt htrack hclear]
    refine iff_of_true hheight fun x' hx' hsame hstart hend => ?_
    exact absurd ⟨x', hx', hsame, hstart, hend⟩ htouch

/-- Two notes that are on screen one well after the other: showing the second one
does not move the sprite at the last instant of the first. -/
theorem undisturbed_by_distant_note :
    let a := steady 1 10 3000
    ∃ l x x' s₁ s₂ sprite₁ sprite₂,
      a.Shows 0 l a.emptyStage [x] s₁ ∧ a.Shows 0 l s₁ [x'] s₂
        ∧ (a.generateLane 0 [500, 1200]).apply a.emptyStage = (s₂, none)
        ∧ x.period = ⟨500, 1000⟩ ∧ x'.period = ⟨1200, 1700⟩
        ∧ s₁.document.sprites[x.sprite]? = some sprite₁
        ∧ s₂.document.sprites[x.sprite]? = some sprite₂
        ∧ @Sprite.heightAt Rat _ Elementary.absent sprite₂ 900
          = @Sprite.heightAt Rat _ Elementary.absent sprite₁ 900 := by
  intro a
  have hrun : (a.generateLane 0 [500, 1200]).apply a.emptyStage
      = (((a.generateLane 0 [500, 1200]).apply a.emptyStage).1, none) :=
    Prod.ext rfl (Option.isNone_iff_eq_none.1 (by decide +kernel))
  obtain ⟨l, log, -, hscenes, hreuse⟩ :=
    @undisturbed_iff a 0 Elementary.absent _ _ _ _ (new_steady 1 3000 (by norm_num)) _ _ _
      (by decide +kernel) hrun
  have hvisible : a.scenes 0 [500, 1200] = [(500, ⟨500, 1000⟩), (1200, ⟨1200, 1700⟩)] := by
    decide +kernel
  obtain ⟨x, log, rfl, hx, hlog⟩ := List.map_eq_cons_iff.1 (hscenes.trans hvisible)
  obtain ⟨x', rfl, hx'⟩ := List.map_eq_singleton_iff.1 hlog
  obtain ⟨-, hperiod⟩ := Prod.mk.inj hx
  obtain ⟨-, hperiod'⟩ := Prod.mk.inj hx'
  obtain ⟨s₁, sprite₁, sprite₂, hshows₁, hshows₂, hget₁, hget₂, hiff⟩ := hreuse [] x [x'] rfl
  refine ⟨l, x, x', s₁, _, sprite₁, sprite₂, hshows₁, hshows₂, hrun, hperiod, hperiod', hget₁,
    hget₂, (hiff 900 (by decide +kernel) ?_).2 fun x'' hx'' _ hstart => ?_⟩
  · rw [hperiod]
    decide +kernel
  · rw [List.mem_singleton.1 hx'', hperiod, hperiod'] at hstart
    norm_num at hstart

/-- Two notes whose periods touch: right after the motion of the first one was
written its sprite stands at 0 at the last instant of its period, but when the
second one has been shown it stands at 500 there. -/
theorem disturbed_by_touching_note :
    let a := steady 1 10 2000
    ∃ s₁ s₂, Animation.new oneLane (Scroll.ofVelocities [⟨0, 1⟩]) ⟨10, 600, 100, false⟩ 2000 = .ok a
      ∧ (a.generateLane 0 [500]).apply a.emptyStage = (s₁, none)
      ∧ (a.generateLane 0 [500, 1000]).apply a.emptyStage = (s₂, none)
      ∧ s₁.pools = [⟨true, [⟨0, [⟨500, 1000⟩]⟩]⟩]
      ∧ s₂.pools = [⟨true, [⟨0, [⟨500, 1000⟩, ⟨1000, 1500⟩]⟩]⟩]
      ∧ 900 ∈ a.sampler.times
      ∧ s₁.document.sprites[0]?.bind (@Sprite.heightAt Rat _ Elementary.absent · 900)
        = some (.scalar 0)
      ∧ s₂.document.sprites[0]?.bind (@Sprite.heightAt Rat _ Elementary.absent · 900)
        = some (.scalar 500) := by
  refine ⟨_, _, new_steady 1 2000 (by norm_num),
    Prod.ext rfl (Option.isNone_iff_eq_none.1 ?_),
    Prod.ext rfl (Option.isNone_iff_eq_none.1 ?_), ?_⟩
  · decide +kernel
  · decide +kernel
  · decide +kernel

end Animation

end Storyboard
