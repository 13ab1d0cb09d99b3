/-
What an exported text tells. No line of a document has a line feed in it as long as no file has
one, so the text tells the lines. The lines are blocks within blocks: a section for each layer,
in a section its sprites, and in a sprite, below its plain commands, its loops. The line that
opens a block starts as no other line of the block does, so blocks that have the same lines are
the same blocks (`Block.eq_of_flatten`).

That leaves the lines. A heading is split at its commas. Only a file can have commas itself, and
it is what is left when the parts before it and behind it have been taken off
(`Sprite.heading_eq_iff`), so a file may look like anything, other lines and quotes included.

So two documents have one text exactly when they show the same sprites on each layer and the
same samples (`Document.text_eq_iff`).
-/
import Storyboard.Document
import Storyboard.Proofs.Writing.Command

namespace Storyboard

-- ============================================================ blocks

/-- Whether a line starts with a mark. -/
def opens (mark : List Char) (line : String) : Bool := mark.isPrefixOf line.toList

/-- Lines that a mark opens, all of them but the first without it. -/
inductive Block (mark : List Char) : List String → Prop where
  | intro {heading : String} {body : List String} (hheading : opens mark heading = true)
      (hbody : ∀ line ∈ body, opens mark line = false) : Block mark (heading :: body)

/-- Lines without a mark are read up to the first line that has it. -/
theorem takeWhile_append_of_opens {mark : List Char} {xs rest : List String}
    (hxs : ∀ line ∈ xs, opens mark line = false)
    (hrest : ∀ line ∈ rest.head?, opens mark line = true) :
    (xs ++ rest).takeWhile (!opens mark ·) = xs := by
  rw [List.takeWhile_append_of_pos (by simpa using hxs)]
  cases rest with
  | nil => simp
  | cons line rest => simp [hrest line rfl]

/-- Lines without a mark are told from those that follow them. -/
theorem append_inj_of_opens {mark : List Char} {xs ys rest rest' : List String}
    (hxs : ∀ line ∈ xs, opens mark line = false) (hys : ∀ line ∈ ys, opens mark line = false)
    (hrest : ∀ line ∈ rest.head?, opens mark line = true)
    (hrest' : ∀ line ∈ rest'.head?, opens mark line = true) (h : xs ++ rest = ys ++ rest') :
    xs = ys ∧ rest = rest' := by
  have heq : xs = ys := by
    rw [← takeWhile_append_of_opens hxs hrest, h, takeWhile_append_of_opens hys hrest']
  subst heq
  exact ⟨rfl, List.append_cancel_left h⟩

namespace Block

variable {mark : List Char}

/-- What lies behind other lines starts with a block, if there is anything. -/
theorem opens_head {blocks : List (List String)} (h : ∀ b ∈ blocks, Block mark b) :
    ∀ line ∈ blocks.flatten.head?, opens mark line = true := by
  cases blocks with
  | nil => simp
  | cons b blocks =>
      obtain ⟨hheading, -⟩ := h b List.mem_cons_self
      simpa using hheading

/-- Blocks that have the same lines are the same. -/
theorem eq_of_flatten {bs cs : List (List String)} (hbs : ∀ b ∈ bs, Block mark b)
    (hcs : ∀ c ∈ cs, Block mark c) (h : bs.flatten = cs.flatten) : bs = cs := by
  induction bs generalizing cs with
  | nil =>
      cases cs with
      | nil => rfl
      | cons c cs =>
          obtain ⟨-, -⟩ := hcs c List.mem_cons_self
          cases h
  | cons b bs ih =>
      obtain ⟨⟨-, hb⟩, hlater⟩ := List.forall_mem_cons.1 hbs
      cases cs with
      | nil => cases h
      | cons c cs =>
          obtain ⟨⟨-, hc⟩, hlater'⟩ := List.forall_mem_cons.1 hcs
          -- the first block ends where the next line with the mark stands, in both
          obtain ⟨hheading, h⟩ := List.cons.inj h
          obtain ⟨hbody, h⟩ := append_inj_of_opens hb hc (opens_head hlater) (opens_head hlater') h
          rw [hheading, hbody, ih hlater hlater' h]

end Block

/-- A view that tells fewer items apart tells fewer lists apart. -/
theorem map_eq_map_of {β γ δ : Type} {f : β → γ} {g : β → δ} (hfg : ∀ a b, f a = f b → g a = g b)
    {xs ys : List β} (h : xs.map f = ys.map f) : xs.map g = ys.map g := by
  -- item by item: both lists are of one length
  induction xs generalizing ys with
  | nil =>
      cases ys with
      | nil => rfl
      | cons y ys => cases h
  | cons x xs ih =>
      cases ys with
      | nil => cases h
      | cons y ys =>
          obtain ⟨hhead, htail⟩ := List.cons.inj h
          rw [List.map_cons, List.map_cons, hfg x y hhead, ih htail]

/-- Two views that tell the same items apart tell the same lists apart. -/
theorem map_eq_map_iff_of {β γ δ : Type} {f : β → γ} {g : β → δ}
    (hfg : ∀ a b, f a = f b ↔ g a = g b) {xs ys : List β} :
    xs.map f = ys.map f ↔ xs.map g = ys.map g :=
  ⟨map_eq_map_of fun a b => (hfg a b).1, map_eq_map_of fun a b => (hfg a b).2⟩

-- ============================================================= lines

/-- The parts of a text of lines between its line feeds; nothing is behind the last one. -/
theorem splitOn_join {ls : List String} (hls : ∀ line ∈ ls, '\n' ∉ line.toList) :
    (String.join (ls.map (· ++ "\n"))).toList.splitOn '\n' = ls.map String.toList ++ [[]] := by
  induction ls with
  | nil => rfl
  | cons line ls ih =>
      rw [List.forall_mem_cons] at hls
      have hjoin : (String.join ((line :: ls).map (· ++ "\n"))).toList
          = line.toList ++ '\n' :: (String.join (ls.map (· ++ "\n"))).toList := by
        simp [String.toList_join]
      rw [hjoin, List.splitOn_append_cons_self_of_not_mem hls.1, ih hls.2]
      rfl

/-- A text of lines tells them. -/
theorem lines_eq_of_join {ls ls' : List String} (hls : ∀ line ∈ ls, '\n' ∉ line.toList)
    (hls' : ∀ line ∈ ls', '\n' ∉ line.toList)
    (h : String.join (ls.map (· ++ "\n")) = String.join (ls'.map (· ++ "\n"))) : ls = ls' := by
  have hlists : ls.map String.toList ++ [[]] = ls'.map String.toList ++ [[]] := by
    rw [← splitOn_join hls, ← splitOn_join hls', h]
  have hinj := List.map_injective_iff.2 fun _ _ => String.toList_injective
  exact hinj (List.append_cancel_right hlists)

/-- Between commas there is no line feed if there is none in the parts. -/
theorem lineFeed_not_mem_intercalate {parts : List String}
    (h : ∀ part ∈ parts, '\n' ∉ part.toList) : '\n' ∉ (",".intercalate parts).toList := by
  rw [String.toList_intercalate]
  induction parts with
  | nil => simp
  | cons part parts ih =>
      obtain ⟨hpart, hparts⟩ := List.forall_mem_cons.1 h
      cases parts with
      | nil => simpa using hpart
      | cons next parts =>
          rw [List.map_cons, List.map_cons, List.intercalate_cons_cons]
          simpa [hpart] using ih hparts

section

variable {α : Type} [Scalar α]

theorem lineFeed_not_mem_listText (xs : List α) : '\n' ∉ (Scalar.listText xs).toList := by
  refine lineFeed_not_mem_intercalate fun part hpart => ?_
  obtain ⟨x, -, rfl⟩ := List.mem_map.1 hpart
  exact Scalar.not_mem_text (by decide) x

/-- A line feed in a command line would have to come from what the command does. -/
theorem lineFeed_not_mem_commandLine (kind : Kind) (easing : Easing) (start stop : α)
    {payload : String} (hpayload : '\n' ∉ payload.toList) :
    '\n' ∉ (commandLine kind easing start stop payload).toList := by
  have hcode : '\n' ∉ kind.code.toList := by cases kind <;> decide
  have hspan : '\n' ∉ (Scalar.spanText start stop).toList := by
    have htext : ∀ a : α, '\n' ∉ (Scalar.text a).toList := Scalar.not_mem_text (by decide)
    unfold Scalar.spanText
    split <;> simp [htext]
  have heasing : '\n' ∉ (toString easing.number).toList := not_mem_toString (by decide) _
  refine lineFeed_not_mem_intercalate ?_
  simp only [List.forall_mem_cons]
  exact ⟨hcode, heasing, hspan, hpayload, List.forall_mem_nil _⟩

namespace Line

/-- Every line is a command line. -/
theorem exists_text_eq (l : Line α) :
    ∃ (kind : Kind) (easing : Easing) (start stop : α) (payload : String),
      l.text = commandLine kind easing start stop payload ∧ '\n' ∉ payload.toList := by
  cases l with
  | single e =>
      -- the payload of a flag is a letter, that of any other command a list of numbers
      refine ⟨e.kind, e.easing, e.start, e.stop, e.payload, rfl, ?_⟩
      unfold Event.payload
      split
      · cases e.kind <;> decide
      · exact lineFeed_not_mem_listText _
  | run r =>
      exact ⟨r.kind, r.easing, r.start, r.start + r.step, _, rfl, lineFeed_not_mem_listText _⟩

/-- So no command line has one. -/
theorem lineFeed_not_mem_text (l : Line α) : '\n' ∉ l.text.toList := by
  obtain ⟨kind, easing, start, stop, payload, htext, hpayload⟩ := l.exists_text_eq
  rw [htext]
  exact lineFeed_not_mem_commandLine kind easing start stop hpayload

/-- No command has the code of loops. -/
theorem opens_loop (l : Line α) : opens [' ', 'L'] (" " ++ l.text) = false := by
  obtain ⟨kind, easing, start, stop, payload, htext, -⟩ := l.exists_text_eq
  rw [htext]
  unfold opens commandLine
  cases kind <;> simp [Kind.code, List.isPrefixOf]

end Line

/-- Whatever they are indented by, the lines of commands tell their texts. -/
theorem Timeline.commandLines_eq_iff (indent : String) {es es' : List (Event α)} :
    commandLines indent es = commandLines indent es'
      ↔ (Event.compact es).map Line.text = (Event.compact es').map Line.text := by
  refine map_eq_map_iff_of (f := fun l : Line α => indent ++ l.text) fun l l' => ?_
  exact String.append_right_inj indent

-- ============================================================= loops

/-- What the lines of a loop show. -/
structure PrintedLoop where
  start : String
  count : Nat
  body : List String
  deriving DecidableEq

namespace Loop

def printed (l : Loop α) : PrintedLoop :=
  ⟨Scalar.text l.start, l.count, (Event.compact l.body).map Line.text⟩

def lines (l : Loop α) : List String := (" " ++ l.heading) :: Timeline.commandLines "  " l.body

theorem heading_eq (l : Loop α) :
    l.heading = ",".intercalate ["L", Scalar.text l.start, toString l.count] :=
  String.toList_inj.1 (by simp [heading])

/-- The heading of a loop has three fields. -/
theorem fields_heading (l : Loop α) :
    fields l.heading = [['L'], (Scalar.text l.start).toList, (toString l.count).toList] := by
  rw [heading_eq, fields_intercalate (List.cons_ne_nil _ _)]
  -- none of the parts has a comma of its own
  simp only [List.flatMap_cons, List.flatMap_nil, fields_text, fields_toString]
  rfl

theorem lineFeed_not_mem_heading (l : Loop α) : '\n' ∉ l.heading.toList := by
  rw [heading_eq]
  refine lineFeed_not_mem_intercalate ?_
  simp only [List.forall_mem_cons]
  exact ⟨by decide, Scalar.not_mem_text (by decide) _, not_mem_toString (by decide) _,
    List.forall_mem_nil _⟩

/-- It tells when the loop starts and how often it runs. -/
theorem heading_eq_iff {l l' : Loop α} :
    l.heading = l'.heading ↔ Scalar.text l.start = Scalar.text l'.start ∧ l.count = l'.count := by
  refine ⟨fun h => ?_, fun ⟨hstart, hcount⟩ => by rw [heading, heading, hstart, hcount]⟩
  have hfields := congrArg fields h
  simp only [fields_heading, List.cons.injEq, and_true, true_and, String.toList_inj,
    Nat.toString_eq_repr] at hfields
  exact ⟨hfields.1, Nat.repr_injective hfields.2⟩

/-- The lines of a loop tell what is printed of it. -/
theorem lines_eq_iff {l l' : Loop α} : l.lines = l'.lines ↔ l.printed = l'.printed := by
  unfold lines printed
  rw [List.cons.injEq, String.append_right_inj, heading_eq_iff, Timeline.commandLines_eq_iff,
    PrintedLoop.mk.injEq, and_assoc]

/-- The lines of a loop are a block: its commands are indented twice. -/
theorem block_lines (l : Loop α) : Block [' ', 'L'] l.lines := by
  refine .intro (by simp [opens, heading, List.isPrefixOf]) fun line hline => ?_
  obtain ⟨c, -, rfl⟩ := List.mem_map.1 hline
  simp [opens, List.isPrefixOf]

end Loop

-- =========================================================== sprites

namespace Timeline

/-- A timeline is written as its plain commands and a block for each loop. -/
theorem lines_eq (t : Timeline α) :
    t.lines = commandLines " " t.events ++ (t.loops.map Loop.lines).flatten := by
  rw [← List.flatMap_def]
  rfl

/-- The lines of timelines are indented. -/
theorem exists_of_mem_lines {t : Timeline α} {line : String} (h : line ∈ t.lines) :
    (∃ rest, line.toList = ' ' :: rest) ∧ '\n' ∉ line.toList := by
  have hcommand : ∀ {indent : String} {es : List (Event α)}, '\n' ∉ indent.toList →
      line ∈ commandLines indent es →
      (∃ rest, line.toList = indent.toList ++ rest) ∧ '\n' ∉ line.toList := by
    intro indent es hindent hline
    obtain ⟨c, -, rfl⟩ := List.mem_map.1 hline
    exact ⟨⟨c.text.toList, by simp⟩, by simp [hindent, c.lineFeed_not_mem_text]⟩
  rw [lines_eq, List.mem_append, List.mem_flatten] at h
  rcases h with hline | ⟨ls, hls, hline⟩
  · exact hcommand (by decide) hline
  · obtain ⟨l, -, rfl⟩ := List.mem_map.1 hls
    rcases List.mem_cons.1 hline with rfl | hline
    · exact ⟨⟨l.heading.toList, by simp⟩, by simp [l.lineFeed_not_mem_heading]⟩
    · obtain ⟨⟨rest, hrest⟩, hfeed⟩ := hcommand (by decide) hline
      exact ⟨⟨' ' :: rest, hrest⟩, hfeed⟩

/-- The lines of a timeline show its commands and its loops. -/
theorem lines_eq_iff {t t' : Timeline α} :
    t.lines = t'.lines ↔
      (Event.compact t.events).map Line.text = (Event.compact t'.events).map Line.text
        ∧ t.loops.map Loop.printed = t'.loops.map Loop.printed := by
  -- the lines of commands open no block, and each loop is a block
  have hplain : ∀ {es : List (Event α)}, ∀ line ∈ commandLines " " es,
      opens [' ', 'L'] line = false := by
    intro es line hline
    obtain ⟨c, -, rfl⟩ := List.mem_map.1 hline
    exact c.opens_loop
  have hloops : ∀ {ls : List (Loop α)}, ∀ b ∈ ls.map Loop.lines, Block [' ', 'L'] b := by
    intro ls b hb
    obtain ⟨l, -, rfl⟩ := List.mem_map.1 hb
    exact l.block_lines
  rw [lines_eq, lines_eq, ← commandLines_eq_iff " ",
    ← map_eq_map_iff_of fun _ _ => Loop.lines_eq_iff]
  refine ⟨fun h => ?_, fun ⟨hcommands, hlines⟩ => by rw [hcommands, hlines]⟩
  obtain ⟨hcommands, hlines⟩ := append_inj_of_opens hplain hplain (Block.opens_head hloops)
    (Block.opens_head hloops) h
  exact ⟨hcommands, Block.eq_of_flatten hloops hloops hlines⟩

end Timeline

/-- What the lines of a sprite show. -/
structure PrintedSprite where
  layer : Layer
  origin : Origin
  file : String
  x : String
  y : String
  commands : List String
  loops : List PrintedLoop
  deriving DecidableEq

theorem Origin.name_injective : Function.Injective name := by
  intro o o' h
  revert h
  cases o <;> cases o' <;> decide

theorem Origin.fields_name (o : Origin) : fields o.name = [o.name.toList] :=
  fields_eq_singleton (by cases o <;> decide)

theorem Layer.name_injective : Function.Injective name := by
  intro l l' h
  revert h
  cases l <;> cases l' <;> decide

theorem Layer.fields_name (l : Layer) : fields l.name = [l.name.toList] :=
  fields_eq_singleton (by cases l <;> decide)

/-- Quotes and commas in a file do not hide it: it stands between the outer quotes. -/
theorem file_eq_of_fields {file file' : String}
    (h : fields ("\"" ++ file ++ "\"") = fields ("\"" ++ file' ++ "\"")) : file = file' := by
  have hquoted := fields_injective h
  rwa [String.append_left_inj, String.append_right_inj] at hquoted

namespace Sprite

def printed (s : Sprite α) : PrintedSprite :=
  ⟨s.layer, s.origin, s.file, Scalar.text s.position.x, Scalar.text s.position.y,
    (Event.compact s.timeline.events).map Line.text, s.timeline.loops.map Loop.printed⟩

/-- The fields of a heading before the file and behind it, and those that the file makes. -/
theorem fields_heading (s : Sprite α) :
    fields s.heading = "Sprite".toList :: s.layer.name.toList :: s.origin.name.toList
      :: (fields ("\"" ++ s.file ++ "\"")
        ++ [(Scalar.text s.position.x).toList, (Scalar.text s.position.y).toList]) := by
  unfold heading
  rw [fields_intercalate (List.cons_ne_nil _ _)]
  simp only [List.flatMap_cons, List.flatMap_nil, Layer.fields_name, Origin.fields_name,
    fields_text]
  rfl

/-- The first line of a sprite tells what it is, but for its timeline. -/
theorem heading_eq_iff {s s' : Sprite α} :
    s.heading = s'.heading ↔ s.layer = s'.layer ∧ s.origin = s'.origin ∧ s.file = s'.file
      ∧ Scalar.text s.position.x = Scalar.text s'.position.x
      ∧ Scalar.text s.position.y = Scalar.text s'.position.y := by
  refine ⟨fun h => ?_, fun ⟨hlayer, horigin, hfile, hx, hy⟩ => ?_⟩
  · have hfields := congrArg fields h
    simp only [fields_heading, List.cons.injEq, true_and, String.toList_inj] at hfields
    obtain ⟨hlayer, horigin, hrest⟩ := hfields
    -- the position is behind the file, whatever the file has in it
    obtain ⟨hfile, hposition⟩ := List.append_inj' hrest rfl
    simp only [List.cons.injEq, and_true, String.toList_inj] at hposition
    exact ⟨Layer.name_injective hlayer, Origin.name_injective horigin, file_eq_of_fields hfile,
      hposition⟩
  · unfold heading
    rw [hlayer, horigin, hfile, hx, hy]

/-- The lines of a sprite tell what is printed of it. -/
theorem lines_eq_iff {s s' : Sprite α} : s.lines = s'.lines ↔ s.printed = s'.printed := by
  unfold lines printed
  rw [List.cons.injEq, heading_eq_iff, Timeline.lines_eq_iff, PrintedSprite.mk.injEq]
  simp only [and_assoc]

/-- The lines of a sprite are a block, since those of its timeline are indented. -/
theorem block_lines (s : Sprite α) : Block ['S'] s.lines := by
  refine .intro (by simp [opens, heading, List.isPrefixOf]) fun line hline => ?_
  obtain ⟨⟨rest, hrest⟩, -⟩ := Timeline.exists_of_mem_lines hline
  simp [opens, hrest, List.isPrefixOf]

/-- No line of a sprite starts as the heading of a section does. -/
theorem opens_section (s : Sprite α) : ∀ line ∈ s.lines, opens ['/'] line = false := by
  refine List.forall_mem_cons.2 ⟨by simp [opens, heading, List.isPrefixOf], fun line hline => ?_⟩
  obtain ⟨⟨rest, hrest⟩, -⟩ := Timeline.exists_of_mem_lines hline
  simp [opens, hrest, List.isPrefixOf]

theorem lineFeed_not_mem_lines {s : Sprite α} (hfile : '\n' ∉ s.file.toList) :
    ∀ line ∈ s.lines, '\n' ∉ line.toList := by
  have hlayer : '\n' ∉ s.layer.name.toList := by cases s.layer <;> decide
  have horigin : '\n' ∉ s.origin.name.toList := by cases s.origin <;> decide
  have htext : ∀ a : α, '\n' ∉ (Scalar.text a).toList := Scalar.not_mem_text (by decide)
  refine List.forall_mem_cons.2 ⟨lineFeed_not_mem_intercalate ?_, fun line hline => ?_⟩
  · simp only [List.forall_mem_cons]
    exact ⟨by decide, hlayer, horigin, by simp [hfile], htext _, htext _, List.forall_mem_nil _⟩
  · exact (Timeline.exists_of_mem_lines hline).2

end Sprite

-- =========================================================== samples

/-- What the line of a sample shows. -/
structure PrintedSample where
  time : String
  layer : Layer
  file : String
  volume : Nat
  deriving DecidableEq

theorem Layer.index_injective : Function.Injective index := by
  intro l l' h
  revert h
  cases l <;> cases l' <;> decide

namespace Sample

def printed (s : Sample α) : PrintedSample := ⟨Scalar.text s.time, s.layer, s.file, s.volume⟩

theorem fields_line (s : Sample α) :
    fields s.line = "Sample".toList :: (Scalar.text s.time).toList
      :: (toString s.layer.index).toList
      :: (fields ("\"" ++ s.file ++ "\"") ++ [(toString s.volume).toList]) := by
  unfold line
  rw [fields_intercalate (List.cons_ne_nil _ _)]
  simp only [List.flatMap_cons, List.flatMap_nil, fields_text, fields_toString]
  rfl

/-- The line of a sample tells what is printed of it. -/
theorem line_eq_iff {s s' : Sample α} : s.line = s'.line ↔ s.printed = s'.printed := by
  unfold printed
  rw [PrintedSample.mk.injEq]
  refine ⟨fun h => ?_, fun ⟨htime, hlayer, hfile, hvolume⟩ => ?_⟩
  · have hfields := congrArg fields h
    simp only [fields_line, List.cons.injEq, true_and, String.toList_inj,
      Nat.toString_eq_repr] at hfields
    obtain ⟨htime, hlayer, hrest⟩ := hfields
    obtain ⟨hfile, hvolume⟩ := List.append_inj' hrest rfl
    simp only [List.cons.injEq, and_true, String.toList_inj] at hvolume
    exact ⟨htime, Layer.index_injective (Nat.repr_injective hlayer), file_eq_of_fields hfile,
      Nat.repr_injective hvolume⟩
  · unfold line
    rw [htime, hlayer, hfile, hvolume]

theorem lineFeed_not_mem_line {s : Sample α} (hfile : '\n' ∉ s.file.toList) :
    '\n' ∉ s.line.toList := by
  have hnat : ∀ n : Nat, '\n' ∉ (toString n).toList := not_mem_toString (by decide)
  refine lineFeed_not_mem_intercalate ?_
  simp only [List.forall_mem_cons]
  exact ⟨by decide, Scalar.not_mem_text (by decide) _, hnat _, by simp [hfile], hnat _,
    List.forall_mem_nil _⟩

end Sample

-- ========================================================= documents

namespace Document

/-- A document whose files have no line feed. It would end their line. -/
def SingleLine (d : Document α) : Prop :=
  (∀ s ∈ d.sprites, '\n' ∉ s.file.toList) ∧ ∀ s ∈ d.samples, '\n' ∉ s.file.toList

instance (d : Document α) : Decidable d.SingleLine := inferInstanceAs (Decidable (_ ∧ _))

/-- Where no file has a line feed no line has one. -/
theorem lineFeed_not_mem_lines {d : Document α} (hd : d.SingleLine) :
    ∀ line ∈ d.lines, '\n' ∉ line.toList := by
  unfold lines
  simp only [List.forall_mem_append, List.forall_mem_flatMap]
  refine ⟨⟨by decide, fun l _ => ?_⟩, ?_⟩
  · refine List.forall_mem_cons.2 ⟨by cases l <;> decide, ?_⟩
    rw [List.forall_mem_flatMap]
    exact fun s hs => Sprite.lineFeed_not_mem_lines (hd.1 s (List.mem_filter.1 hs).1)
  · unfold sampleLines
    split
    · exact List.forall_mem_nil _
    · refine List.forall_mem_cons.2 ⟨by decide, ?_⟩
      rw [List.forall_mem_map]
      exact fun s hs => Sample.lineFeed_not_mem_line (hd.2 s hs)

/-- The sections of a document: one for each layer, and one for the samples if there are any. -/
def sections (d : Document α) : List (List String) :=
  Layer.all.map d.layerLines ++ if d.samples.isEmpty then [] else [d.sampleLines]

/-- A document is written as two lines and its sections. -/
theorem lines_eq (d : Document α) :
    d.lines = ["[Events]", "//Background and Video events"] ++ d.sections.flatten := by
  unfold lines sections
  rw [List.flatten_append, ← List.flatMap_def, List.append_assoc]
  congr 2
  unfold sampleLines
  split <;> simp

/-- Each section is opened by a comment, and has no other one. -/
theorem block_sections (d : Document α) : ∀ b ∈ d.sections, Block ['/'] b := by
  unfold sections
  simp only [List.forall_mem_append, List.forall_mem_map]
  refine ⟨fun l _ => ?_, ?_⟩
  · refine .intro (by cases l <;> decide) ?_
    rw [List.forall_mem_flatMap]
    exact fun s _ => s.opens_section
  · unfold sampleLines
    split
    · simp
    · simp only [List.forall_mem_singleton]
      refine .intro (by decide) fun line hline => ?_
      obtain ⟨s, -, rfl⟩ := List.mem_map.1 hline
      simp [opens, Sample.line, List.isPrefixOf]

/-- The section of a layer tells its sprites, as far as they are printed. -/
theorem layerLines_eq_iff {d d' : Document α} {l : Layer} :
    d.layerLines l = d'.layerLines l ↔
      (d.sprites.filter (·.layer = l)).map Sprite.printed
        = (d'.sprites.filter (·.layer = l)).map Sprite.printed := by
  have hblocks : ∀ sprites : List (Sprite α), ∀ b ∈ sprites.map Sprite.lines, Block ['S'] b := by
    intro sprites b hb
    obtain ⟨s, -, rfl⟩ := List.mem_map.1 hb
    exact s.block_lines
  unfold layerLines
  rw [List.cons.injEq, List.flatMap_def, List.flatMap_def,
    ← map_eq_map_iff_of fun _ _ => Sprite.lines_eq_iff]
  refine ⟨fun h => Block.eq_of_flatten (hblocks _) (hblocks _) h.2, fun h => ⟨rfl, ?_⟩⟩
  rw [h]

/-- The last section tells the samples. There is none if there are no samples. -/
theorem sampleLines_eq_iff {d d' : Document α} :
    d.sampleLines = d'.sampleLines ↔
      d.samples.map Sample.printed = d'.samples.map Sample.printed := by
  have hlines : ∀ d : Document α, d.sampleLines = if (d.samples.map Sample.line).isEmpty then []
      else "//Storyboard Sound Samples" :: d.samples.map Sample.line := by
    intro d
    simp [sampleLines]
  rw [← map_eq_map_iff_of fun _ _ => Sample.line_eq_iff, hlines, hlines]
  refine ⟨fun h => ?_, fun h => by rw [h]⟩
  cases hl : d.samples.map Sample.line <;> cases hl' : d'.samples.map Sample.line <;>
    simp_all

end Document

end

/-- Two documents have the same text exactly when on each layer they have the same sprites, as
far as lines show them, and the same samples. -/
theorem Document.text_eq_iff {α : Type} [Scalar α] {d d' : Document α} (hd : d.SingleLine)
    (hd' : d'.SingleLine) :
    d.text = d'.text ↔
      (∀ l : Layer, (d.sprites.filter (·.layer = l)).map Sprite.printed
          = (d'.sprites.filter (·.layer = l)).map Sprite.printed)
        ∧ d.samples.map Sample.printed = d'.samples.map Sample.printed := by
  simp only [← layerLines_eq_iff, ← sampleLines_eq_iff]
  refine ⟨fun h => ?_, fun ⟨hlayers, hsamples⟩ => ?_⟩
  · have hlines := lines_eq_of_join (lineFeed_not_mem_lines hd) (lineFeed_not_mem_lines hd') h
    -- the sections are blocks, so they are the same one by one; what is left of the lines are the
    -- samples
    have hsections : d.sections = d'.sections := by
      rw [lines_eq, lines_eq] at hlines
      exact Block.eq_of_flatten d.block_sections d'.block_sections (List.append_cancel_left hlines)
    obtain ⟨hmap, -⟩ := List.append_inj hsections (by simp)
    have hlayers := fun l : Layer => List.map_inj_left.1 hmap l l.mem_all
    refine ⟨hlayers, ?_⟩
    unfold lines at hlines
    rw [List.flatMap_congr fun l _ => hlayers l] at hlines
    exact List.append_cancel_left hlines
  · unfold text lines
    rw [List.flatMap_congr fun l _ => hlayers l, hsamples]

/-- A quick fade. -/
def blink : Event Float := ⟨.fade, .linear, 0, 500, some (.scalar 1, .scalar 0)⟩

/-- A sprite in front of one in the back, whose file reads like parts of lines. -/
def cover : Document Float where
  sprites := [
    ⟨.foreground, .centre, "Sprite,Pass", ⟨320, 240⟩, ⟨[.event blink, .loop ⟨1000, 4, [blink]⟩]⟩⟩,
    ⟨.background, .topLeft, "a\",1,\"b.png", ⟨0, 0.0001⟩, ⟨[.event blink]⟩⟩]
  samples := [⟨250, .pass, "hit.wav", 80⟩]

/-- The same in another order, and with a position that differs by less than is written. -/
def reordered : Document Float where
  sprites := [
    ⟨.background, .topLeft, "a\",1,\"b.png", ⟨0, 0⟩, ⟨[.event blink]⟩⟩,
    ⟨.foreground, .centre, "Sprite,Pass", ⟨320, 240⟩, ⟨[.loop ⟨1000, 4, [blink]⟩, .event blink]⟩⟩]
  samples := [⟨250, .pass, "hit.wav", 80⟩]

/-- They are different documents of one text. -/
theorem Document.text_eq_iff_reordered :
    cover.SingleLine ∧ reordered.SingleLine ∧ cover.text = reordered.text ∧ cover ≠ reordered
      ∧ (∀ l : Layer, (cover.sprites.filter (·.layer = l)).map Sprite.printed
        = (reordered.sprites.filter (·.layer = l)).map Sprite.printed) := by
  have hcover : cover.SingleLine := by decide
  have hreordered : reordered.SingleLine := by decide
  have hcompact : Event.compact [blink] = [.single blink] := by
    have hsorted : ∀ k, Event.inOrder ([blink].filter (·.kind = k)) = [blink].filter (·.kind = k) :=
      fun k => List.mergeSort_of_pairwise ((List.pairwise_singleton _ _).filter _)
    unfold Event.compact Event.chains
    simp only [hsorted]
    decide +kernel
  have htext : cover.text = reordered.text := by
    unfold text lines layerLines Sprite.lines Timeline.lines Timeline.commandLines
    simp [cover, reordered, Layer.all, Timeline.events, Timeline.loops, hcompact]
    decide +kernel
  exact ⟨hcover, hreordered, htext, by decide +kernel, ((text_eq_iff hcover hreordered).1 htext).1⟩

end Storyboard
