/-
What the fade pass makes of the sprites of a pool. Each reserved period adds a
command that holds the sprite visible over it and, at its end, one that hides
it, in order of reservation.

# Which command is in force

Over a reserved period its own command is in force, since all other periods of
the object are over or to come (`inForce_of_contains`). There is one exception:
where another period ends just as this one starts, hiding the sprite and showing
it happen at one instant, and of two commands that start together the one added
last counts. So a sprite is hidden for the whole of a period when a period that
ends at its start was reserved after it (`inForce_of_endsAt`). Between and after
its periods a sprite is always hidden (`inForce_of_outside`).
-/
import Storyboard.Proofs.Document.Extend
import Storyboard.Proofs.Pool.Reservation
import Storyboard.Proofs.Sampling.Sample

namespace Storyboard

variable {α : Type} [Scalar α]

-- ========================================================= commands

namespace Period

/-- Whether a time lies in the period: its start does, its end does not. -/
def contains (p : Period α) (t : α) : Prop := p.start ≤ t ∧ t < p.stop

/-- Whether the period ends at a time, as times compare. -/
def endsAt (p : Period α) (t : α) : Prop := p.stop ≤ t ∧ t ≤ p.stop

instance (p : Period α) (t : α) : Decidable (p.contains t) :=
  inferInstanceAs (Decidable (p.start ≤ t ∧ t < p.stop))

instance (p : Period α) (t : α) : Decidable (p.endsAt t) :=
  inferInstanceAs (Decidable (p.stop ≤ t ∧ t ≤ p.stop))

/-- The command that holds a sprite visible over a period. -/
def shown (p : Period α) : Event α :=
  ⟨.fade, .linear, p.start, p.stop, some (.scalar 1, .scalar 1)⟩

/-- The command that hides a sprite at the end of a period. -/
def hidden (p : Period α) : Event α :=
  ⟨.fade, .linear, p.stop, p.stop, some (.scalar 0, .scalar 0)⟩

/-- The commands of a list of periods, in order. -/
def fadeEvents (periods : List (Period α)) : List (Event α) :=
  periods.flatMap fun p => [p.shown, p.hidden]

theorem mem_fadeEvents {periods : List (Period α)} {e : Event α} :
    e ∈ fadeEvents periods ↔ ∃ p ∈ periods, e = p.shown ∨ e = p.hidden := by
  simp [fadeEvents]

theorem fadeEvents_split (earlier later : List (Period α)) (p : Period α) :
    fadeEvents (earlier ++ p :: later)
      = fadeEvents earlier ++ p.shown :: p.hidden :: fadeEvents later := by
  simp [fadeEvents]

theorem kind_of_mem_fadeEvents {periods : List (Period α)} {e : Event α}
    (he : e ∈ fadeEvents periods) : e.kind = .fade := by
  obtain ⟨p, -, rfl | rfl⟩ := mem_fadeEvents.1 he <;> rfl

end Period

open Period (fadeEvents fadeEvents_split mem_fadeEvents)

section

variable [Scalar.Ordered α]

-- =================================================== which is in force

namespace Pooled.Orderly

variable {o : Pooled α} {earlier later : List (Period α)} {p : Period α} {t : α}

/-- Of two periods of an object the one that has started by a time in the other
is over when the other starts. -/
theorem stop_le_start (ho : o.Orderly) (hsplit : o.periods = earlier ++ p :: later)
    (ht : p.contains t) {q : Period α} (hq : q ∈ earlier ∨ q ∈ later) (hqt : q.start ≤ t) :
    q.stop ≤ p.start := by
  rcases ho.apart_of_split hsplit hq with hbefore | hafter
  · exact hbefore
  · exact absurd (Scalar.le_trans hafter hqt) (Scalar.not_le_of_lt ht.2)

/-- So a command of the other period that has started has done so when its own
period ends, which is no later. -/
theorem start_le_stop (ho : o.Orderly) (hsplit : o.periods = earlier ++ p :: later)
    (ht : p.contains t) {q : Period α} (hq : q ∈ earlier ∨ q ∈ later) {e : Event α}
    (he : e = q.shown ∨ e = q.hidden) (het : e.start ≤ t) :
    e.start ≤ q.stop ∧ q.stop ≤ p.start := by
  have hproper := Scalar.le_of_lt (ho.proper_of_split hsplit hq)
  rcases he with rfl | rfl
  · exact ⟨hproper, ho.stop_le_start hsplit ht hq het⟩
  · have hqt := Scalar.le_trans hproper het
    exact ⟨Scalar.Ordered.le_self_left het, ho.stop_le_start hsplit ht hq hqt⟩

/-- In a period its own command is in force, if none that ends at its start was
reserved later. -/
theorem inForce_of_contains (ho : o.Orderly) (hsplit : o.periods = earlier ++ p :: later)
    (ht : p.contains t) (hlater : ∀ q ∈ later, ¬q.endsAt p.start) :
    inForce Event.start t (fadeEvents o.periods) = some p.shown := by
  rw [hsplit, fadeEvents_split]
  refine inForce_eq_some_iff.2 ⟨_, _, rfl, ht.1, fun e he het => ?_, fun e he het => ?_⟩
  · obtain ⟨q, hq, heq⟩ := mem_fadeEvents.1 he
    obtain ⟨hle, hstop⟩ := ho.start_le_stop hsplit ht (Or.inl hq) heq het
    exact Scalar.le_trans hle hstop
  · rcases List.mem_cons.1 he with rfl | he
    · exact absurd het (Scalar.not_le_of_lt ht.2)
    · obtain ⟨q, hq, heq⟩ := mem_fadeEvents.1 he
      obtain ⟨hle, hstop⟩ := ho.start_le_stop hsplit ht (Or.inr hq) heq het
      have hlt : q.stop < p.start :=
        Scalar.Ordered.lt_iff.2 ⟨hstop, fun h => hlater q hq ⟨hstop, h⟩⟩
      exact Scalar.lt_of_le_of_lt hle hlt

/-- In a period a later reserved one that ends at its start is in force, and
hides the sprite. -/
theorem inForce_of_endsAt (ho : o.Orderly) (hsplit : o.periods = earlier ++ p :: later)
    (ht : p.contains t) {q : Period α} (hq : q ∈ later) (hends : q.endsAt p.start) :
    inForce Event.start t (fadeEvents o.periods) = some q.hidden := by
  obtain ⟨between, after, rfl⟩ := List.append_of_mem hq
  have hsplit' : o.periods = (earlier ++ p :: between) ++ q :: after := by
    rw [hsplit, List.append_assoc, List.cons_append]
  have hproper := ho.proper_of_split hsplit (Or.inr hq)
  rw [hsplit', fadeEvents_split, List.append_cons]
  refine inForce_eq_some_iff.2
    ⟨_, _, rfl, Scalar.le_trans hends.1 ht.1, fun e he het => ?_, fun e he het => ?_⟩
  · rcases List.mem_append.1 he with he | he
    · obtain ⟨r, hr, heq⟩ := mem_fadeEvents.1 he
      rcases List.mem_append.1 hr with hr | hr
      · obtain ⟨hle, hstop⟩ := ho.start_le_stop hsplit ht (Or.inl hr) heq het
        exact Scalar.le_trans hle (Scalar.le_trans hstop hends.2)
      rcases List.mem_cons.1 hr with rfl | hr
      · rcases heq with rfl | rfl
        · exact hends.2
        · exact absurd het (Scalar.not_le_of_lt ht.2)
      · obtain ⟨hle, hstop⟩ :=
          ho.start_le_stop hsplit ht (Or.inr (List.mem_append_left _ hr)) heq het
        exact Scalar.le_trans hle (Scalar.le_trans hstop hends.2)
    · rw [List.mem_singleton.1 he]
      exact Scalar.le_of_lt hproper
  · obtain ⟨r, hr, heq⟩ := mem_fadeEvents.1 he
    have hr' : r ∈ between ++ q :: after := by simp [hr]
    obtain ⟨hle, hstop⟩ := ho.start_le_stop hsplit ht (Or.inr hr') heq het
    -- `r` cannot lie between `q` and `p`: there is no room
    rcases ho.apart_of_split hsplit' (Or.inr hr) with hbefore | hafter
    · exact Scalar.lt_of_le_of_lt (Scalar.le_trans hle hbefore) hproper
    · have hroom := Scalar.le_trans hstop (Scalar.le_trans hends.2 hafter)
      exact absurd hroom (Scalar.not_le_of_lt (ho.proper_of_split hsplit (Or.inr hr')))

/-- Outside its periods, once one of them has started, a sprite is hidden by the
end of one that is over. -/
theorem inForce_of_outside (ho : o.Orderly) (hstarted : ∃ p ∈ o.periods, p.start ≤ t)
    (houtside : ∀ p ∈ o.periods, ¬p.contains t) :
    ∃ q ∈ o.periods, q.stop ≤ t
      ∧ inForce Event.start t (fadeEvents o.periods) = some q.hidden := by
  cases hin : inForce Event.start t (fadeEvents o.periods) with
  | none =>
      obtain ⟨p, hp, hpt⟩ := hstarted
      have hnone := inForce_eq_none_iff.1 hin p.shown (mem_fadeEvents.2 ⟨p, hp, Or.inl rfl⟩)
      exact absurd hpt hnone
  | some e =>
      obtain ⟨he, het⟩ := mem_of_inForce hin
      obtain ⟨q, hq, rfl | rfl⟩ := mem_fadeEvents.1 he
      · -- outside the period its end has been reached, which starts later than its beginning and
        -- would be in force
        have hstop : q.stop ≤ t :=
          Scalar.le_of_not_lt (Scalar.Ordered.le_self_right het)
            (Scalar.Ordered.le_self_right (Scalar.le_of_lt (ho.proper q hq)))
            fun h => houtside q hq ⟨het, h⟩
        have hlast : q.stop ≤ q.start :=
          start_le_of_inForce hin (mem_fadeEvents.2 ⟨q, hq, Or.inr rfl⟩) hstop
        exact absurd hlast (Scalar.not_le_of_lt (ho.proper q hq))
      · exact ⟨q, hq, het, rfl⟩

end Pooled.Orderly

/-- The fades of proper periods pass their checks. -/
theorem Pooled.checkAll_fades {o : Pooled α} (hproper : ∀ p ∈ o.periods, p.start < p.stop) :
    Draft.checkAll o.fades = (fadeEvents o.periods, none) := by
  unfold Pooled.fades
  generalize o.periods = periods at hproper ⊢
  induction periods with
  | nil => rfl
  | cons p periods ih =>
      have hp := hproper p List.mem_cons_self
      have hshown : (Draft.fade .linear p.start p.stop 1 1).check = .ok p.shown :=
        Draft.check_number rfl fun h => Scalar.lt_irrefl _ (Scalar.lt_trans hp h)
      have hhidden : (Draft.fade .linear p.stop p.stop 0 0).check = .ok p.hidden :=
        Draft.check_number rfl (Scalar.lt_irrefl _)
      have ih' := ih fun q hq => hproper q (List.mem_cons_of_mem _ hq)
      rw [List.flatMap_cons, List.cons_append, List.cons_append, List.nil_append,
        Draft.checkAll_cons_of_ok hshown, Draft.checkAll_cons_of_ok hhidden, ih']
      rfl

-- ====================================================== the fade pass

/-- The fade pass over objects that have a sprite each: it succeeds, each of
these sprites has the fades of its periods added, all others stay. -/
theorem Pool.fades_do {objects : List (Pooled α)} {d : Document α}
    (horderly : ∀ o ∈ objects, o.Orderly) (hnodup : (objects.map Pooled.sprite).Nodup)
    (hhoused : ∀ o ∈ objects, ∃ s, d.sprites[o.sprite]? = some s) :
    ∃ d', (objects.forM fun o => Document.extend o.sprite o.fades).Does d ⟨⟩ d'
      ∧ d'.samples = d.samples
      ∧ (∀ o ∈ objects, ∀ s, d.sprites[o.sprite]? = some s →
          d'.sprites[o.sprite]? = some (s.withEvents (fadeEvents o.periods)))
      ∧ ∀ i, i ∉ objects.map Pooled.sprite → d'.sprites[i]? = d.sprites[i]? := by
  induction objects generalizing d with
  | nil => exact ⟨d, by simp, rfl, by simp, fun _ _ => rfl⟩
  | cons o objects ih =>
      rw [List.map_cons, List.nodup_cons] at hnodup
      obtain ⟨s, hs⟩ := hhoused o List.mem_cons_self
      have hchecks := Pooled.checkAll_fades (horderly o List.mem_cons_self).proper
      have hlt := (List.getElem?_eq_some_iff.1 hs).1
      -- the document after the first object
      let m : Document α :=
        { d with sprites := d.sprites.set o.sprite (s.withEvents (fadeEvents o.periods)) }
      have hm : ∀ i, i ≠ o.sprite → m.sprites[i]? = d.sprites[i]? := fun i hi =>
        List.getElem?_set_ne (Ne.symm hi)
      have hother : ∀ r ∈ objects, r.sprite ≠ o.sprite := fun r hr heq =>
        hnodup.1 (heq ▸ List.mem_map_of_mem hr)
      obtain ⟨d', hdoes, hsamples, hadded, hkept⟩ :=
        ih (fun r hr => horderly r (List.mem_cons_of_mem _ hr)) hnodup.2 (d := m)
          fun r hr => by
            rw [hm _ (hother r hr)]
            exact hhoused r (List.mem_cons_of_mem _ hr)
      refine ⟨d', ?_, hsamples, fun r hr s' hs' => ?_, fun i hi => ?_⟩
      · refine Edit.does_forM_cons_iff.2 ⟨m, ?_, hdoes⟩
        exact (Document.extend_does_iff hchecks).2 ⟨s, hs, rfl⟩
      · rcases List.mem_cons.1 hr with rfl | hr
        · rw [hkept _ hnodup.1]
          obtain rfl : s = s' := by
            rw [hs] at hs'
            exact Option.some.inj hs'
          exact List.getElem?_set_self hlt
        · refine hadded r hr s' ?_
          rw [hm _ (hother r hr)]
          exact hs'
      · rw [List.map_cons, List.mem_cons, not_or] at hi
        rw [hkept i hi.2, hm i hi.1]

end

end Storyboard
