/-
Which parts of a gear are added when not all of them can be. A sprite is made before the document
is touched, so the background, the line and a note are each added as a whole or not at all. The
background and the line together are not: the background is in the document when the line is
made, and stays there if that fails (`Document.addGear_leaves_background`). This is the only way
in which adding a part of a gear can change a document and fail (`Document.gear_whole`).
-/
import Storyboard.Proofs.Scroll.Faults

namespace Storyboard

variable {α : Type}

variable [Scalar α] {g : Gear α} {d : Document α}

-- ========================================================== sprites

/-- Where the commands are not at fault, a sprite is made if it has a file. -/
theorem Sprite.ofDrafts_ok_iff {layer : Layer} {origin : Origin} {file : String}
    {position : Point α} {drafts : List (Draft α)} (hchecks : ∀ d ∈ drafts, ∃ e, d.check = .ok e) :
    (∃ sprite, Sprite.ofDrafts layer origin file position drafts = .ok sprite) ↔ file ≠ "" := by
  constructor
  · rintro ⟨sprite, hmade⟩ rfl
    cases hmade
  · intro hfile
    cases hmade : Sprite.ofDrafts layer origin file position drafts with
    | ok sprite => exact ⟨sprite, rfl⟩
    | error f => exact absurd (Sprite.fault_of_ofDrafts hchecks hmade).2 hfile

namespace Gear

/-- The gear has a background to be drawn: an image with a file and an extent. -/
def Backed (g : Gear α) : Prop :=
  (∃ image, g.config.backgroundImage = some image ∧ image ≠ "")
    ∧ (g.config.backgroundSize.x == 0) = false ∧ (g.config.backgroundSize.y == 0) = false

/-- Something is there if it can be made. -/
private theorem exists_map_some_iff {ε β : Type} {x : Except ε β} :
    (∃ b, some <$> x = .ok (some b)) ↔ ∃ b, x = .ok b := by
  cases x with
  | ok b => exact ⟨fun _ => ⟨b, rfl⟩, fun _ => ⟨b, rfl⟩⟩
  | error e => exact ⟨nofun, nofun⟩

/-- An image that does not extend in both directions is not drawn. -/
theorem background_of_no_extent
    (h : g.config.backgroundSize.x == 0 || g.config.backgroundSize.y == 0) :
    g.background? = .ok none := by
  unfold background?
  cases g.config.backgroundImage with
  | none => rfl
  | some image => exact if_pos h

/-- An image that does is stretched over the whole gear. -/
theorem background_of_extent {image : String} (himage : g.config.backgroundImage = some image)
    (h : ¬(g.config.backgroundSize.x == 0 || g.config.backgroundSize.y == 0)) :
    g.background? = some <$> Sprite.ofDrafts .background .topLeft image ⟨g.config.left, 0⟩
      [shown, scaled ⟨g.width / g.config.backgroundSize.x,
        backgroundHeight / g.config.backgroundSize.y⟩] := by
  unfold background?
  rw [himage]
  exact if_neg h

/-- A line without a file is refused. -/
theorem judgeline_of_fileless (h : g.config.judgelineImage = "") :
    g.judgeline = .error .emptySpritePath := by
  unfold judgeline
  rw [h]
  rfl

variable [Scalar.Ordered α]

/-- A gear has a background sprite if it is backed. -/
theorem background_some_iff : (∃ sprite, g.background? = .ok (some sprite)) ↔ g.Backed := by
  cases himage : g.config.backgroundImage with
  | none => simp [Backed, background?, himage]
  | some image =>
      by_cases hsize : (g.config.backgroundSize.x == 0 || g.config.backgroundSize.y == 0) = true
      · rw [background_of_no_extent hsize]
        have hextent : ¬g.Backed := fun ⟨_, hx, hy⟩ => by simp [hx, hy] at hsize
        simp [hextent]
      · rw [background_of_extent himage hsize, exists_map_some_iff,
          Sprite.ofDrafts_ok_iff (by simp [check_shown, check_scaled])]
        rw [Bool.or_eq_true, not_or, Bool.not_eq_true, Bool.not_eq_true] at hsize
        refine ⟨fun hfile => ⟨⟨image, himage, hfile⟩, hsize⟩, fun hbacked => ?_⟩
        obtain ⟨⟨image', hother, hfile⟩, -⟩ := hbacked
        cases himage.symm.trans hother
        exact hfile

/-- This is the only way in which a line is refused. -/
theorem judgeline_error_iff : (∃ f, g.judgeline = .error f) ↔ g.config.judgelineImage = "" :=
  ⟨fun ⟨_, h⟩ => (fault_of_judgeline h).2, fun h => ⟨_, judgeline_of_fileless h⟩⟩

end Gear

-- ======================================================== documents

namespace Document

/-- The background is added, if there is one. -/
theorem addBackground_does {background : Option (Sprite α)}
    (h : g.background? = .ok background) :
    ∃ i, (addBackground g).Does d i { d with sprites := d.sprites ++ background.toList } := by
  have hmade : (Edit.ofExcept g.background? : Edit α (Document α) _).Does d background d :=
    Edit.does_ofExcept_iff.2 ⟨h, rfl⟩
  cases background with
  | none => exact ⟨none, Edit.does_bind_iff.2 ⟨_, d, hmade, Edit.does_pure_iff.2 ⟨rfl, by simp⟩⟩⟩
  | some sprite =>
      have hadded : (add sprite).Does d d.size (d.addSprite sprite) := add_does_iff.2 ⟨rfl, rfl⟩
      exact ⟨some d.size, Edit.does_bind_iff.2 ⟨_, d, hmade,
        Edit.does_bind_iff.2 ⟨_, _, hadded, Edit.does_pure_iff.2 ⟨rfl, rfl⟩⟩⟩⟩

/-- The line is added, if it can be made. -/
theorem addJudgeline_does {sprite : Sprite α} (h : g.judgeline = .ok sprite) :
    (addJudgeline g).Does d d.size (d.addSprite sprite) :=
  place_does_iff.2 ⟨sprite, h, rfl, rfl⟩

/-- The background is made before it is added. -/
theorem whole_addBackground : (addBackground g).Whole d := by
  refine Edit.whole_ofExcept_bind fun background _ => ?_
  cases background with
  | none => exact Edit.Does.whole (Edit.does_pure_iff.2 ⟨rfl, rfl⟩)
  | some sprite =>
      exact Edit.Does.whole (Edit.does_bind_iff.2
        ⟨_, _, add_does_iff.2 ⟨rfl, rfl⟩, Edit.does_pure_iff.2 ⟨rfl, rfl⟩⟩)

/-- So is the line. -/
theorem whole_addJudgeline : (addJudgeline g).Whole d := whole_place

/-- So is a note, after its lane has been looked up. -/
theorem whole_addNote {lane : Nat} : (addNote g lane).Whole d :=
  Edit.whole_ofExcept_bind fun _ _ => whole_place

/-- When the line cannot be made the background is in the document already. -/
theorem outcome_addGear_of_judgeline_error {background : Option (Sprite α)} {f : Fault α}
    (hbackground : g.background? = .ok background) (hline : g.judgeline = .error f) :
    (addGear g).outcome d
      = (.error f, { d with sprites := d.sprites ++ background.toList }) := by
  obtain ⟨i, hdoes⟩ := addBackground_does (d := d) hbackground
  unfold addGear
  rw [hdoes.outcome_bind]
  refine Edit.outcome_bind_of_error ?_
  unfold addJudgeline place
  rw [hline]
  exact Edit.outcome_bind_of_error (Edit.outcome_ofExcept_error f)

/-- When the background cannot be made nothing has been added yet. -/
theorem outcome_addGear_of_background_error {f : Fault α} (h : g.background? = .error f) :
    (addGear g).outcome d = (.error f, d) := by
  unfold addGear addBackground
  rw [h]
  exact Edit.outcome_bind_of_error (Edit.outcome_bind_of_error (Edit.outcome_ofExcept_error f))

/-- The background and the line are added as a whole, unless there is a background and no line. -/
theorem whole_addGear_iff : (addGear g).Whole d
    ↔ ¬((∃ sprite, g.background? = .ok (some sprite)) ∧ ∃ f, g.judgeline = .error f) := by
  constructor
  · rintro hwhole ⟨⟨sprite, hbackground⟩, f, hline⟩
    -- the document that is left is longer by the background
    have hsame := hwhole f _ (outcome_addGear_of_judgeline_error hbackground hline)
    have hlength := congrArg (fun d => d.sprites.length) hsame
    simp at hlength
  · intro hnot
    cases hbackground : g.background? with
    | error f => exact Edit.whole_of_error (outcome_addGear_of_background_error hbackground)
    | ok background =>
        cases hline : g.judgeline with
        | ok line =>
            obtain ⟨i, hdoes⟩ := addBackground_does (d := d) hbackground
            have hrest := addJudgeline_does (d := { d with
              sprites := d.sprites ++ background.toList }) hline
            exact Edit.Does.whole (Edit.does_bind_iff.2 ⟨i, _, hdoes,
              Edit.does_bind_iff.2 ⟨_, _, hrest, Edit.does_pure_iff.2 ⟨rfl, rfl⟩⟩⟩)
        | error f =>
            cases background with
            | some sprite => exact absurd ⟨⟨sprite, hbackground⟩, f, hline⟩ hnot
            | none =>
                refine Edit.whole_of_error (f := f) ?_
                simpa using outcome_addGear_of_judgeline_error (d := d) hbackground hline

variable [Scalar.Ordered α]

/-- A part of a gear that cannot be added leaves the document as it is. The background and the
line are added together or not at all, unless the gear has a background and its line has no file:
then the background alone is left. -/
theorem gear_whole (g : Gear α) (d : Document α) :
    (addBackground g).Whole d ∧ (addJudgeline g).Whole d ∧ (∀ lane, (addNote g lane).Whole d)
      ∧ ((addGear g).Whole d ↔ ¬(g.Backed ∧ g.config.judgelineImage = ""))
      ∧ ∀ background, g.background? = .ok (some background) → g.config.judgelineImage = "" →
          (addGear g).outcome d = (.error .emptySpritePath, d.addSprite background) := by
  refine ⟨whole_addBackground, whole_addJudgeline, fun _ => whole_addNote, ?_, ?_⟩
  · rw [whole_addGear_iff, Gear.background_some_iff, Gear.judgeline_error_iff]
  · intro background hbackground hline
    exact outcome_addGear_of_judgeline_error hbackground (Gear.judgeline_of_fileless hline)

/-- A gear whose line has no file, with a background of some size. -/
def lineless (size : Point Float) : GearConfig Float where
  left := 200
  laneWidths := [60]
  noteImages := ["n.png"]
  noteImageWidth := 120
  backgroundImage := some "gear.png"
  backgroundSize := size
  judgelineImage := ""
  judgelineY := 420

/-- Nothing is added if the background has no extent either. -/
theorem gear_whole_flat :
    ∃ g, Gear.new (lineless ⟨100, 0⟩) = .ok g ∧ (addGear g).Whole .empty
      ∧ (addGear g).outcome .empty = (.error .emptySpritePath, .empty) := by
  refine ⟨_, rfl, (gear_whole _ _).2.2.2.1.2 ?_, by decide +kernel⟩
  rintro ⟨⟨-, -, hheight⟩, -⟩
  exact absurd hheight (by decide +kernel)

/-- If it has one, the background is in the document when the line is refused. -/
theorem addGear_leaves_background :
    ∃ g sprite, Gear.new (lineless ⟨100, 320⟩) = .ok g
      ∧ (addGear g).outcome .empty = (.error .emptySpritePath, ⟨[sprite], []⟩)
      ∧ ¬(addGear g).Whole .empty := by
  refine ⟨⟨lineless ⟨100, 320⟩, [⟨200, 60, "n.png"⟩]⟩, ?_⟩
  have hbacked : (⟨lineless ⟨100, 320⟩, [⟨200, 60, "n.png"⟩]⟩ : Gear Float).Backed :=
    ⟨⟨_, rfl, by decide⟩, by decide +kernel, by decide +kernel⟩
  obtain ⟨sprite, hbackground⟩ := Gear.background_some_iff.2 hbacked
  have hleft := outcome_addGear_of_judgeline_error (d := .empty) hbackground
    (Gear.judgeline_of_fileless rfl)
  refine ⟨sprite, by decide +kernel, hleft, fun hwhole => ?_⟩
  cases hwhole _ _ hleft

end Document

end Storyboard
