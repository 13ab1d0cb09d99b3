/-
When the sprites of a pool are seen. After any history of requests the fade
pass shows each sprite over its reserved periods and hides it otherwise
(`Pool.shows_reserved`), with two exceptions, which both come from how the
stored commands are read and not from which periods were granted.

Order. Of two commands at one instant the one added last counts, and commands
are added in order of reservation. So a period that was reserved after another
one and ends where it starts keeps the sprite hidden for all of it.

Size. The command over a period holds the value 1 by going from 1 to 1, and on
its way a part of the period has passed. For periods that are longer than any
number that can be stored the part is undefined, and so is the value.
-/
import Storyboard.Proofs.Pool.Fades

namespace Storyboard

-- ============================================================ staying at 1

namespace Binary

open Float.Model

/-- Zero times a number: a zero of either sign, or undefined if the number is
not finite. -/
theorem zero_mul_cases (q : Float) :
    (q.isFinite = true ∧ ∃ s, (0 : Float) * q = .ofModel (pack (.zero s)))
      ∨ (q.isFinite = false ∧ (0 : Float) * q = .ofModel (pack .notANumber)) := by
  have hzero : (0 : Float).toModel.unpack = .zero .positive := rfl
  have hmul : (0 : Float) * q
      = .ofModel (pack ((UnpackedFloat.zero .positive).mul .binary64 q.toModel.unpack)) := by
    rw [← hzero]
    rfl
  have hfinite : q.isFinite = q.toModel.unpack.isFinite := rfl
  rw [hmul, hfinite]
  cases q.toModel.unpack with
  | notANumber => exact Or.inr ⟨rfl, rfl⟩
  | infinity s => exact Or.inr ⟨rfl, rfl⟩
  | zero s => exact Or.inl ⟨rfl, _, rfl⟩
  | finite s m e hm => exact Or.inl ⟨rfl, _, rfl⟩

/-- Between 1 and 1 there is nothing but 1, as long as the part of the way is
finite. -/
theorem mix_one_iff {q : Float} : Value.mix q 1 1 = (1 : Float) ↔ q.isFinite = true := by
  have hmix : Value.mix q 1 1 = (1 : Float) + (1 - 1) * q := rfl
  have hdiff : (1 - 1 : Float) = 0 := by decide +kernel
  rw [hmix, hdiff]
  rcases zero_mul_cases q with ⟨hfinite, s, hzero⟩ | ⟨hfinite, hnan⟩
  · have hone : (1 : Float) + .ofModel (pack (.zero s)) = 1 := by cases s <;> decide +kernel
    simp [hfinite, hzero, hone]
  · have hone : (1 : Float) + .ofModel (pack .notANumber) ≠ 1 := by decide +kernel
    simpa [hfinite, hnan] using hone

end Binary

-- ========================================================== one sprite

/-- A sprite that no command fades. -/
def Sprite.unfaded {α : Type} (s : Sprite α) : Prop := ∀ e ∈ s.timeline.events, e.kind ≠ .fade

/-- The fades that an unfaded sprite shows are those that are added to it. -/
theorem Sprite.sample_withEvents_fades {α : Type} [Scalar α] [Elementary α] {s : Sprite α}
    (hs : s.unfaded) (periods : List (Period α)) (t : α) :
    (s.withEvents (Period.fadeEvents periods)).sample .fade t
      = (inForce Event.start t (Period.fadeEvents periods)).bind (·.valueAt t) := by
  have hold : s.timeline.events.filter (·.kind = .fade) = [] :=
    List.filter_eq_nil_iff.2 fun e he => by simpa using hs e he
  have hnew : (Period.fadeEvents periods).filter (·.kind = .fade) = Period.fadeEvents periods :=
    List.filter_eq_self.2 fun e he => by simpa using Period.kind_of_mem_fadeEvents he
  unfold Sprite.sample Event.sample
  rw [Sprite.events_withEvents, List.filter_append, hold, hnew, List.nil_append]

namespace Period

variable {p : Period Float} {t : Float}

/-- From the end of a period its other command shows 0. -/
theorem valueAt_hidden (ht : p.stop ≤ t) : p.hidden.valueAt t = some (.scalar 0) :=
  Event.valueAt_of_instant rfl rfl ht

/-- Before a period ends its command shows 1, unless the part of it that has
passed is not finite. -/
theorem valueAt_shown_iff (ht : t < p.stop) :
    p.shown.valueAt t = some (.scalar 1)
      ↔ t ≤ p.start ∨ ((t - p.start) / p.duration).isFinite = true := by
  by_cases hstart : t ≤ p.start
  · have hvalue : p.shown.valueAt t = some (.scalar 1) := Event.valueAt_of_le_start rfl hstart
    simp [hvalue, hstart]
  · have hvalue : p.shown.valueAt t
        = some (.scalar (Value.mix ((t - p.start) / p.duration) 1 1)) :=
      Event.valueAt_of_between (e := p.shown) rfl rfl hstart (Scalar.not_le_of_lt ht)
    rw [hvalue, Option.some_inj, Value.scalar.injEq, Binary.mix_one_iff]
    simp [hstart]

end Period

-- ============================================================= the pool

/-- A request for a still image, over a period. -/
def Pool.Request.ofStill (start stop : Float) : Pool.Request Float :=
  .acquire ⟨start, stop⟩ (.ok ⟨.foreground, .centre, "still.png", ⟨320, 240⟩, .empty⟩)

theorem Pool.Request.unfaded_of_ofStill {requests : List (Float × Float)} {p : Period Float}
    {sprite : Sprite Float}
    (h : .acquire p (.ok sprite) ∈ requests.map fun r => ofStill r.1 r.2) : sprite.unfaded := by
  obtain ⟨r, -, hr⟩ := List.mem_map.1 h
  simp only [ofStill, acquire.injEq, Except.ok.injEq] at hr
  rw [← hr.2]
  simp [Sprite.unfaded, Timeline.empty, Timeline.events]

/-- After a history of requests to a pool, in any order of time, the fade pass
succeeds. Over a reserved period a sprite is fully visible, if and only if no
period that was reserved later ends where it starts and, past its start, the
part of it that has passed is finite. Outside its periods, from the start of
the first one on, it is hidden. -/
theorem Pool.shows_reserved (reserves : Bool) (d₀ : Document Float)
    (requests : List (Pool.Request Float)) (s : Pool.Site Float)
    (hs : s = Pool.Site.performAll ⟨Pool.empty reserves, d₀⟩ requests)
    (hspawn : ∀ p sprite, Pool.Request.acquire p (.ok sprite) ∈ requests → sprite.unfaded) :
    ∃ d, s.pool.applyFades.apply s.document = (d, none)
      ∧ ∀ o ∈ s.pool.objects, ∃ sprite, d.sprites[o.sprite]? = some sprite
        ∧ (∀ earlier p later t, o.periods = earlier ++ p :: later → p.contains t →
            (sprite.sample .fade t = some (.scalar 1)
              ↔ (∀ q ∈ later, ¬q.endsAt p.start)
                ∧ (t ≤ p.start ∨ ((t - p.start) / p.duration).isFinite = true)))
        ∧ ∀ t, (∃ p ∈ o.periods, p.start ≤ t) → (∀ p ∈ o.periods, ¬p.contains t) →
            sprite.sample .fade t = some (.scalar 0) := by
  have hkept : Pool.Kept Sprite.unfaded s := by
    rw [hs]
    exact (Pool.kept_empty reserves d₀).performAll hspawn
  obtain ⟨d, hdoes, -, hadded, -⟩ := Pool.fades_do hkept.orderly hkept.nodup fun o ho => by
    obtain ⟨sprite, hget, -⟩ := hkept.housed o ho
    exact ⟨sprite, hget⟩
  refine ⟨d, Edit.apply_eq_none_iff.2 hdoes, fun o ho => ?_⟩
  obtain ⟨sprite, hget, hunfaded⟩ := hkept.housed o ho
  have horderly := hkept.orderly o ho
  refine ⟨_, hadded o ho sprite hget, fun earlier p later t hsplit ht => ?_,
    fun t hstarted houtside => ?_⟩
  · rw [Sprite.sample_withEvents_fades hunfaded]
    -- either the own command of the period is in force, or one that hides the sprite
    by_cases hlater : ∀ q ∈ later, ¬q.endsAt p.start
    · rw [horderly.inForce_of_contains hsplit ht hlater, Option.bind_some,
        Period.valueAt_shown_iff ht.2]
      exact (and_iff_right hlater).symm
    · simp only [hlater, false_and, iff_false]
      push Not at hlater
      obtain ⟨q, hq, hends⟩ := hlater
      have hstop : q.stop ≤ t := Scalar.le_trans hends.1 ht.1
      rw [horderly.inForce_of_endsAt hsplit ht hq hends, Option.bind_some,
        Period.valueAt_hidden hstop]
      have hne : (0 : Float) ≠ 1 := by decide +kernel
      simpa using hne
  · obtain ⟨q, -, hstop, hin⟩ := horderly.inForce_of_outside hstarted houtside
    rw [Sprite.sample_withEvents_fades hunfaded, hin, Option.bind_some,
      Period.valueAt_hidden hstop]

/-- Two periods that touch, reserved in order of time: both are shown. -/
theorem Pool.shows_touching_in_order :
    ∃ d sprite,
      let s := Pool.Site.performAll ⟨Pool.empty true, .empty⟩
        ([(0, 100), (100, 200)].map fun r => .ofStill r.1 r.2)
      s.pool.applyFades.apply s.document = (d, none) ∧ d.sprites[0]? = some sprite
        ∧ sprite.sample .fade 50 = some (.scalar 1)
        ∧ sprite.sample .fade 150 = some (.scalar 1)
        ∧ sprite.sample .fade 200 = some (.scalar 0) := by
  obtain ⟨d, hdoes, hshown⟩ := Pool.shows_reserved true .empty
    ([(0, 100), (100, 200)].map fun r => .ofStill r.1 r.2) _ rfl
    fun p sprite => Pool.Request.unfaded_of_ofStill
  obtain ⟨sprite, hget, hinside, houtside⟩ :=
    hshown ⟨0, [⟨0, 100⟩, ⟨100, 200⟩]⟩ (by decide +kernel)
  refine ⟨d, sprite, hdoes, hget, ?_, ?_, ?_⟩
  · exact (hinside [] ⟨0, 100⟩ [⟨100, 200⟩] 50 rfl (by decide +kernel)).2 (by decide +kernel)
  · exact (hinside [⟨0, 100⟩] ⟨100, 200⟩ [] 150 rfl (by decide +kernel)).2 (by decide +kernel)
  · exact houtside 200 ⟨⟨0, 100⟩, by simp, by decide +kernel⟩ (by decide +kernel)

/-- The same two periods, reserved in the other order: the end of the first one
hides the sprite for all of the second. -/
theorem Pool.hides_touching_in_reverse :
    ∃ d sprite,
      let s := Pool.Site.performAll ⟨Pool.empty true, .empty⟩
        ([(100, 200), (0, 100)].map fun r => .ofStill r.1 r.2)
      s.pool.objects = [⟨0, [⟨100, 200⟩, ⟨0, 100⟩]⟩]
        ∧ s.pool.applyFades.apply s.document = (d, none) ∧ d.sprites[0]? = some sprite
        ∧ Period.contains ⟨100, 200⟩ (150 : Float)
        ∧ sprite.sample .fade 150 ≠ some (.scalar 1) := by
  refine ⟨_, _, by decide +kernel, rfl, rfl, by decide +kernel, ?_⟩
  decide +kernel

end Storyboard
