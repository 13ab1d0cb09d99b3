/-
Adding to a document: a sprite, or commands to one of its sprites. Commands that
pass their checks are all added, behind what the sprite's timeline already holds,
and nothing else of the document changes.
-/
import Storyboard.Document
import Storyboard.Proofs.Edit
import Storyboard.Proofs.Event.WellFormed

namespace Storyboard

variable {α : Type}

-- ==================================================== plain commands

namespace Timeline

/-- A timeline of commands has these commands. -/
theorem events_ofEvents (events : List (Event α)) :
    (⟨events.map .event⟩ : Timeline α).events = events := by
  unfold Timeline.events
  rw [List.filterMap_map]
  exact List.filterMap_some

/-- A timeline without loops has the lines of its commands. -/
theorem lines_ofEvents [Scalar α] (events : List (Event α)) :
    (⟨events.map .event⟩ : Timeline α).lines = commandLines " " events := by
  have hloops : (⟨events.map .event⟩ : Timeline α).loops = [] := by
    unfold loops
    rw [List.filterMap_map]
    exact List.filterMap_eq_nil_iff.2 fun _ _ => rfl
  rw [lines, events_ofEvents, hloops, List.flatMap_nil, List.append_nil]

end Timeline

-- ========================================================== sprites

/-- A sprite with commands added at the end of its timeline. -/
def Sprite.withEvents (s : Sprite α) (events : List (Event α)) : Sprite α :=
  { s with timeline := ⟨s.timeline.entries ++ events.map .event⟩ }

/-- They come behind those that it had. -/
theorem Sprite.events_withEvents (s : Sprite α) (events : List (Event α)) :
    (s.withEvents events).timeline.events = s.timeline.events ++ events := by
  unfold Sprite.withEvents Timeline.events
  rw [List.filterMap_append, List.filterMap_map]
  congr 1
  exact List.filterMap_some

theorem Sprite.withEvents_nil (s : Sprite α) : s.withEvents [] = s := by
  unfold Sprite.withEvents
  rw [List.map_nil, List.append_nil]

theorem Sprite.withEvents_withEvents (s : Sprite α) (events events' : List (Event α)) :
    (s.withEvents events).withEvents events' = s.withEvents (events ++ events') := by
  unfold Sprite.withEvents
  rw [List.map_append, ← List.append_assoc]

variable [Scalar α]

-- ==================================================== checked drafts

namespace Draft

/-- A draft that passes its check leaves it to the others. -/
theorem checkAll_cons_of_ok {d : Draft α} {e : Event α} {ds : List (Draft α)}
    (h : d.check = .ok e) :
    checkAll (d :: ds) = (e :: (checkAll ds).1, (checkAll ds).2) := by
  rw [checkAll, h]

/-- Drafts that pass their checks one by one. -/
theorem checkAll_map {β : Type} {bs : List β} {d : β → Draft α} {e : β → Event α}
    (h : ∀ b ∈ bs, (d b).check = .ok (e b)) : checkAll (bs.map d) = (bs.map e, none) := by
  induction bs with
  | nil => rfl
  | cons b bs ih =>
      rw [List.map_cons, checkAll_cons_of_ok (h b List.mem_cons_self),
        ih fun b' hb' => h b' (List.mem_cons_of_mem b hb')]
      rfl

/-- Checking does not change the kind of a command. -/
theorem kind_of_check_change {kind : Kind} {easing : Easing} {start : α} {stop : Option α}
    {first last : Option (Value α)} {e : Event α}
    (h : (change kind easing start stop first last).check = .ok e) : e.kind = kind := by
  unfold check Event.check at h
  simp only [bind, Except.bind] at h
  split at h
  · cases h
  · cases hsides : Event.sides kind first last with
    | error f =>
        rw [hsides] at h
        cases h
    | ok values =>
        rw [hsides] at h
        cases h
        rfl

/-- A change that does not end before it starts, of values as its kind wants them, is
what it says it is. -/
theorem check_values {kind : Kind} {easing : Easing} {start stop : α} {v w : Value α}
    (hkind : kind.arity ≠ 0) (hv : v.arity = kind.arity) (hw : w.arity = kind.arity)
    (htime : ¬stop < start) :
    (change kind easing start (some stop) (some v) (some w)).check
      = .ok ⟨kind, easing, start, stop, some (v, w)⟩ := by
  have hflag : kind.isFlag = false := by
    rw [Bool.eq_false_iff]
    exact fun hf => hkind (kind.isFlag_iff_arity.1 hf)
  have hwell : (⟨kind, easing, start, stop, some (v, w)⟩ : Event α).WellFormed :=
    ⟨htime, hflag, hv, hw⟩
  exact check_change hwell rfl

/-- A change of one number that does not end before it starts is what it says
it is. -/
theorem check_number {kind : Kind} {easing : Easing} {start stop a b : α}
    (hkind : kind.arity = 1) (htime : ¬stop < start) :
    (number kind easing start stop a b).check
      = .ok ⟨kind, easing, start, stop, some (.scalar a, .scalar b)⟩ :=
  check_values (hkind ▸ Nat.one_ne_zero) hkind.symm hkind.symm htime

end Draft

/-- A sprite that starts with commands has them and nothing else, all of them checked. -/
theorem Sprite.exists_events_of_ofDrafts {layer : Layer} {origin : Origin} {file : String}
    {position : Point α} {drafts : List (Draft α)} {s : Sprite α}
    (h : Sprite.ofDrafts layer origin file position drafts = .ok s) :
    ∃ events, Draft.checkAll drafts = (events, none)
      ∧ s = ⟨layer, origin, file, position, ⟨events.map .event⟩⟩ := by
  unfold Sprite.ofDrafts Sprite.new at h
  simp only [bind, Except.bind] at h
  split at h
  · cases h
  next sprite hnew =>
    split at hnew
    · cases hnew
    · cases hnew
      rcases hdrafts : Draft.checkAll drafts with ⟨events, fault⟩
      simp only [Timeline.extend, hdrafts] at h
      cases fault with
      | some f => cases h
      | none =>
          cases h
          exact ⟨events, rfl, rfl⟩

-- ======================================================== documents

namespace Document

section

variable {d d' : Document α} {sprite : Sprite α} {made : Except (Fault α) (Sprite α)} {i : Nat}

omit [Scalar α]

/-- The sprites that there were keep their places, and the new one comes last. -/
theorem add_does_iff : (add sprite).Does d i d' ↔ i = d.size ∧ d' = d.addSprite sprite := by
  unfold add
  rw [Edit.does_get_bind_iff]
  simp [Edit.does_bind_iff, -bind_pure_comp]

theorem place_does_iff : (place made).Does d i d'
    ↔ ∃ sprite, made = .ok sprite ∧ i = d.size ∧ d' = d.addSprite sprite := by
  unfold place
  simp only [Edit.does_ofExcept_bind_iff, add_does_iff]

/-- A sprite is made before the document is touched. -/
theorem whole_place : (place made).Whole d :=
  Edit.whole_ofExcept_bind fun _ _ => Edit.Does.whole (add_does_iff.2 ⟨rfl, rfl⟩)

end

/-- What adding commands to a sprite does: the sprite is there, and the commands all pass
their checks and are added to it. -/
theorem extend_does_iff_checked {index : Nat} {drafts : List (Draft α)} {d d' : Document α} :
    (extend index drafts).Does d () d'
      ↔ ∃ s events, d.sprites[index]? = some s ∧ Draft.checkAll drafts = (events, none)
        ∧ d' = { d with sprites := d.sprites.set index (s.withEvents events) } := by
  unfold extend
  rw [Edit.does_bind_iff]
  simp only [Edit.does_get_iff]
  cases hget : d.sprites[index]? with
  | none =>
      constructor
      · intro h'
        obtain ⟨_, _, ⟨rfl, rfl⟩, h⟩ := h'
        rw [hget] at h
        cases h
      · intro h'
        obtain ⟨s, _, hs, -⟩ := h'
        cases hs
  | some s =>
      rcases hdrafts : Draft.checkAll drafts with ⟨events, fault⟩
      constructor
      · intro h'
        obtain ⟨_, _, ⟨rfl, rfl⟩, h⟩ := h'
        rw [hget] at h
        simp only [Timeline.extend, hdrafts] at h
        obtain ⟨_, m, hset, hfault⟩ := Edit.does_bind_iff.1 h
        rw [Edit.does_set_iff] at hset
        cases fault with
        | none => exact ⟨s, events, rfl, rfl, (Edit.does_pure_iff.1 hfault).2.trans hset⟩
        | some f => exact absurd hfault (by simp)
      · intro h'
        obtain ⟨_, _, ⟨⟩, ⟨⟩, rfl⟩ := h'
        refine ⟨d, d, ⟨rfl, rfl⟩, ?_⟩
        rw [hget]
        simp only [Timeline.extend, hdrafts]
        exact Edit.does_bind_iff.2
          ⟨⟨⟩, _, Edit.does_set_iff.2 rfl, Edit.does_pure_iff.2 ⟨rfl, rfl⟩⟩

/-- Commands that pass their checks are added to a sprite that is there. -/
theorem extend_does_iff {index : Nat} {drafts : List (Draft α)} {events : List (Event α)}
    {d d' : Document α} (hdrafts : Draft.checkAll drafts = (events, none)) :
    (extend index drafts).Does d () d'
      ↔ ∃ s, d.sprites[index]? = some s
        ∧ d' = { d with sprites := d.sprites.set index (s.withEvents events) } := by
  rw [extend_does_iff_checked]
  constructor
  · intro h'
    obtain ⟨s, _, hs, hchecked, hd'⟩ := h'
    obtain ⟨rfl, -⟩ := Prod.mk.inj (hdrafts.symm.trans hchecked)
    exact ⟨s, hs, hd'⟩
  · intro h'
    obtain ⟨s, hs, hd'⟩ := h'
    exact ⟨s, events, hs, hdrafts, hd'⟩

end Document

end Storyboard
