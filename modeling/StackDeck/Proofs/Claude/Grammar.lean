import StackDeck.Claude.Message
import StackDeck.Proofs.Json.Blank
import StackDeck.Proofs.Json.Format
import StackDeck.Proofs.Json.Object

/-!
The grammar of the lines that the Claude command writes. It says which objects are messages, kind by kind and field by field,
and what they mean for the turn, without any order of the fields. Fields that no kind knows may hold anything, and so may the
parts of an unknown kind.
-/

namespace StackDeck

open Json Tree

namespace Json

variable {α : Type}

/-! ### Fields of a kind -/

def IsText (v : Json) (s : String) : Prop := v = .str s

def IsFlag (v : Json) (b : Bool) : Prop := v = .bool b

/-- A field that has to be there. -/
def Needs (v : Json) (name : String) (means : Json → α → Prop) (a : α) : Prop :=
  ∃ w, v.field? name = some w ∧ means w a

/-- A field that may be missing, and then stands for a default. -/
def Defaults (v : Json) (name : String) (means : Json → α → Prop) (default a : α) : Prop :=
  v.field? name = none ∧ a = default ∨ v.Needs name means a

/-- A field that may be missing or null. -/
def Spares (v : Json) (name : String) (means : Json → α → Prop) (o : Option α) : Prop :=
  (v.field? name = none ∨ v.field? name = some .null) ∧ o = none ∨ ∃ a, o = some a ∧ v.Needs name means a

end Json

namespace Claude

open Diagnosis

/-! ### Messages -/

def stepKinds : List String := ["content_block_start", "content_block_delta", "content_block_stop"]

def deltaKinds : List String := ["text_delta", "thinking_delta", "input_json_delta"]

def blockKinds : List String := ["text", "tool_use"]

def IsBlock (v : Json) : Block → Prop
  | .text s => v.kindOf? = some "text" ∧ v.Defaults "text" IsText "" s
  | .toolUse name => v.kindOf? = some "tool_use" ∧ v.Needs "name" IsText name
  | .other => ∃ kind, v.kindOf? = some kind ∧ kind ∉ blockKinds

def IsDelta (v : Json) : Delta → Prop
  | .text s => v.kindOf? = some "text_delta" ∧ v.Needs "text" IsText s
  | .thinking s => v.kindOf? = some "thinking_delta" ∧ v.Needs "thinking" IsText s
  | .inputJson s => v.kindOf? = some "input_json_delta" ∧ v.Needs "partial_json" IsText s
  | .other => ∃ kind, v.kindOf? = some kind ∧ kind ∉ deltaKinds

def IsStep (v : Json) : StreamStep → Prop
  | .blockStart b => v.kindOf? = some "content_block_start" ∧ v.Needs "content_block" IsBlock b
  | .blockDelta d => v.kindOf? = some "content_block_delta" ∧ v.Needs "delta" IsDelta d
  | .blockStop => v.kindOf? = some "content_block_stop"
  | .other => ∃ kind, v.kindOf? = some kind ∧ kind ∉ stepKinds

def AreBlocks (v : Json) (blocks : List Block) : Prop := ∃ items, v = .arr items ∧ List.Forall₂ IsBlock items blocks

def HasContent (v : Json) (blocks : List Block) : Prop := v.isObject = true ∧ v.Defaults "content" AreBlocks [] blocks

/-- The values that a message may be read from. -/
def IsMessage (v : Json) : Message → Prop
  | .system subtype id =>
    v.kindOf? = some "system" ∧ v.Defaults "subtype" IsText "" subtype ∧ v.Spares "session_id" IsText id
  | .stream step => v.kindOf? = some "stream_event" ∧ v.Needs "event" IsStep step
  | .assistant content error =>
    v.kindOf? = some "assistant" ∧ v.Needs "message" HasContent content ∧ v.Spares "error" IsText error
  | .user => v.kindOf? = some "user"
  | .result subtype text isError id =>
    v.kindOf? = some "result" ∧ v.Defaults "subtype" IsText "" subtype ∧ v.Spares "result" IsText text ∧
      v.Defaults "is_error" IsFlag false isError ∧ v.Spares "session_id" IsText id

/-! ### Values in the form of records -/

/-- Steps whose parts are tagged records. -/
structure PlainStep (v : Json) : Prop where
  tagged : v.IsTagged
  block : ∀ w, v.kindOf? = some "content_block_start" → v.field? "content_block" = some w → w.IsTagged
  delta : ∀ w, v.kindOf? = some "content_block_delta" → v.field? "delta" = some w → w.IsTagged

/-- Contents whose blocks are tagged records. -/
structure PlainContent (v : Json) : Prop where
  byName : v.ByName
  blocks : ∀ items, v.field? "content" = some (.arr items) → ∀ w ∈ items, w.IsTagged

/-- Values whose parts are records by name, as far as their kind reads them. -/
structure Plain (v : Json) : Prop where
  byName : v.ByName
  event : ∀ w, v.kindOf? = some "stream_event" → v.field? "event" = some w → PlainStep w
  message : ∀ w, v.kindOf? = some "assistant" → v.field? "message" = some w → PlainContent w

/-! ### Reading fields -/

section

variable {α : Type} {read : Tree → Option α} {means : Json → α → Prop} {v : Json} {name : String}

/-- A reader that takes a value for what it means. -/
def Reads (read : Tree → Option α) (means : Json → α → Prop) (v : Json) : Prop := ∀ a, read v.tree = some a ↔ means v a

theorem reads_string (v : Json) : Reads string? IsText v := by
  intro s
  cases v <;> simp [tree, string?, IsText]

theorem reads_boolean (v : Json) : Reads boolean? IsFlag v := by
  intro b
  cases v <;> simp [tree, boolean?, IsFlag]

theorem required_iff (h : ∀ w, v.field? name = some w → Reads read means w) (a : α) :
    (slotFor (v.field? name)).required read = some a ↔ v.Needs name means a := by
  rw [required_slotFor, Option.bind_eq_some_iff]
  exact exists_congr fun w => and_congr_right fun hw => h w hw a

theorem withDefault_iff (h : ∀ w, v.field? name = some w → Reads read means w) (default a : α) :
    (slotFor (v.field? name)).withDefault default read = some a ↔ v.Defaults name means default a := by
  rw [withDefault_slotFor, Defaults, Needs]
  cases hw : v.field? name with
  | none => simp [eq_comm]
  | some w => simpa using h w hw a

theorem nullable_string (v : Json) (o : Option String) :
    Slot.nullable string? v.tree = some o ↔ v = .null ∧ o = none ∨ ∃ s, o = some s ∧ v.IsText s := by
  cases v <;> simp [tree, Slot.nullable, isNull, string?, IsText, eq_comm]

theorem optionalAnywhere_iff (v : Json) (name : String) (o : Option String) :
    (slotFor (v.field? name)).optionalAnywhere string? = some o ↔ v.Spares name IsText o := by
  rw [optionalAnywhere_slotFor, Spares]
  cases hw : v.field? name with
  | none => simp [Needs, hw, eq_comm]
  | some w => simp [Needs, hw, nullable_string]

theorem nested?_tree (kinds : List String) (h : v.IsTagged) :
    nested? kinds v.tree = v.kindOf?.map fun kind => (kind, v.untyped.tree) := by
  rw [nested?, untag?_tree h.byName, kindOf?]
  cases hw : v.field? "type" with
  | none => rfl
  | some w =>
    cases w with
    | num n => exact absurd hw (h.tag n)
    | _ => rfl

/-- A part that is made of one field. -/
theorem field?_map_iff {β : Type} {kind : String} (hv : v.ByName) (hkind : v.kindOf? = some kind) (hname : name ≠ "type")
    (h : ∀ w, v.field? name = some w → Reads read means w) (make : α → β) (b : β) :
    (field? name read v.untyped.tree).map make = some b ↔ ∃ a, v.Needs name means a ∧ make a = b := by
  have hnames : "type" ∉ [name] := by simpa using hname.symm
  rw [field?, slots?_untyped hv hkind hnames, Option.map_eq_some_iff]
  exact exists_congr fun a => and_congr_left fun _ => required_iff h a

theorem text?_map_iff {β : Type} {kind : String} (hv : v.ByName) (hkind : v.kindOf? = some kind) (name : String)
    (hname : name ≠ "type") (make : String → β) (b : β) :
    (field? name string? v.untyped.tree).map make = some b ↔ ∃ s, v.Needs name IsText s ∧ make s = b :=
  field?_map_iff hv hkind hname (fun w _ => reads_string w) make b

end

/-! ### Reading messages -/

variable {v : Json}

theorem reads_block (h : v.IsTagged) : Reads Block.ofTree? IsBlock v := by
  intro b
  rw [Block.ofTree?, nested?_tree _ h]
  cases hkind : v.kindOf? with
  | none => cases b <;> simp [IsBlock, hkind]
  | some kind =>
    simp only [Option.map_some, Option.bind_eq_bind, Option.bind_some]
    split
    next heq =>
      cases heq
      have hslots : slots? ["text"] v.untyped.tree = some [slotFor (v.field? "text")] :=
        slots?_untyped h.byName hkind (by decide)
      simp only [hslots, Option.bind_some, Option.map_eq_some_iff, withDefault_iff fun w _ => reads_string w]
      cases b <;> simp [IsBlock, hkind, blockKinds]
    next heq =>
      cases heq
      rw [text?_map_iff h.byName hkind "name" (by decide)]
      cases b <;> simp [IsBlock, hkind, blockKinds]
    next htext htool heq =>
      cases heq
      simp only [isUnit_untyped hkind]
      cases b <;> simp_all [IsBlock, blockKinds]

theorem reads_delta (h : v.IsTagged) : Reads Delta.ofTree? IsDelta v := by
  intro d
  rw [Delta.ofTree?, nested?_tree _ h]
  cases hkind : v.kindOf? with
  | none => cases d <;> simp [IsDelta, hkind]
  | some kind =>
    simp only [Option.map_some, Option.bind_eq_bind, Option.bind_some]
    split
    next heq =>
      cases heq
      rw [text?_map_iff h.byName hkind "text" (by decide)]
      cases d <;> simp [IsDelta, hkind, deltaKinds]
    next heq =>
      cases heq
      rw [text?_map_iff h.byName hkind "thinking" (by decide)]
      cases d <;> simp [IsDelta, hkind, deltaKinds]
    next heq =>
      cases heq
      rw [text?_map_iff h.byName hkind "partial_json" (by decide)]
      cases d <;> simp [IsDelta, hkind, deltaKinds]
    next heq =>
      cases heq
      simp only [isUnit_untyped hkind]
      cases d <;> simp_all [IsDelta, deltaKinds]

theorem reads_step (h : PlainStep v) : Reads StreamStep.ofTree? IsStep v := by
  intro s
  rw [StreamStep.ofTree?, nested?_tree _ h.tagged]
  cases hkind : v.kindOf? with
  | none => cases s <;> simp [IsStep, hkind]
  | some kind =>
    simp only [Option.map_some, Option.bind_eq_bind, Option.bind_some]
    split
    next heq =>
      cases heq
      rw [field?_map_iff h.tagged.byName hkind (by decide) fun w hw => reads_block (h.block w hkind hw)]
      cases s <;> simp [IsStep, hkind, stepKinds]
    next heq =>
      cases heq
      rw [field?_map_iff h.tagged.byName hkind (by decide) fun w hw => reads_delta (h.delta w hkind hw)]
      cases s <;> simp [IsStep, hkind, stepKinds]
    next heq =>
      cases heq
      simp only [isUnit_untyped hkind]
      cases s <;> simp [IsStep, hkind, stepKinds]
    next heq =>
      cases heq
      simp only [isUnit_untyped hkind]
      cases s <;> simp_all [IsStep, stepKinds]

theorem mapM_treeItems {α : Type} {read : Tree → Option α} {means : Json → α → Prop} {items : List Json}
    (h : ∀ w ∈ items, Reads read means w) (as : List α) :
    (treeItems items).mapM read = some as ↔ List.Forall₂ means items as := by
  induction items generalizing as with
  | nil => simp [treeItems, eq_comm]
  | cons w r ih =>
    obtain ⟨hw, hr⟩ := List.forall_mem_cons.mp h
    simp only [treeItems, List.mapM_cons, Option.bind_eq_bind, Option.bind_eq_some_iff, List.forall₂_cons_left_iff]
    constructor
    · rintro ⟨a, ha, rest, hrest, hall⟩
      cases hall
      exact ⟨a, rest, (hw a).mp ha, (ih hr rest).mp hrest, rfl⟩
    · rintro ⟨a, rest, ha, hrest, rfl⟩
      exact ⟨a, (hw a).mpr ha, rest, (ih hr rest).mpr hrest, rfl⟩

theorem reads_blocks (h : ∀ items, v = .arr items → ∀ w ∈ items, w.IsTagged) :
    Reads (list? Block.ofTree?) AreBlocks v := by
  intro blocks
  cases v with
  | arr items =>
    have hitems := mapM_treeItems fun w hw => reads_block (h items rfl w hw)
    simpa [tree, list?, AreBlocks] using hitems blocks
  | _ => simp [tree, list?, AreBlocks]

theorem reads_content (h : PlainContent v) : Reads contentOf? HasContent v := by
  intro blocks
  rw [contentOf?, slots?_tree h.byName]
  cases hobject : v.isObject with
  | false => simp [HasContent, hobject]
  | true =>
    have hfield := withDefault_iff (fun w hw => reads_blocks fun items heq => h.blocks items (heq ▸ hw)) [] blocks
    simpa [HasContent, hobject] using hfield

/-- The messages that are read from a value are those that its grammar gives. -/
theorem reads_message (h : Plain v) : Reads Message.ofTree? IsMessage v := by
  intro m
  rw [Message.ofTree?, tagged?_tree h.byName]
  cases hkind : v.kindOf? with
  | none => cases m <;> simp [IsMessage, hkind]
  | some kind =>
    simp only [Option.map_some, Option.bind_eq_bind, Option.bind_some]
    split
    next heq =>
      cases heq
      have hslots := slots?_untyped h.byName hkind (show "type" ∉ ["subtype", "session_id"] by decide)
      simp only [hslots, List.map_cons, List.map_nil, Option.bind_some, Option.bind_eq_some_iff,
        withDefault_iff fun w _ => reads_string w, optionalAnywhere_iff]
      cases m <;> simp [IsMessage, hkind]
    next heq =>
      cases heq
      rw [field?_map_iff h.byName hkind (by decide) fun w hw => reads_step (h.event w hkind hw)]
      cases m <;> simp [IsMessage, hkind]
    next heq =>
      cases heq
      have hslots := slots?_untyped h.byName hkind (show "type" ∉ ["message", "error"] by decide)
      simp only [hslots, List.map_cons, List.map_nil, Option.bind_some, Option.bind_eq_some_iff,
        required_iff fun w hw => reads_content (h.message w hkind hw), optionalAnywhere_iff]
      cases m <;> simp [IsMessage, hkind]
    next heq =>
      cases heq
      simp only [isUnit_untyped hkind]
      cases m <;> simp [IsMessage, hkind]
    next heq =>
      cases heq
      have hslots := slots?_untyped h.byName hkind
        (show "type" ∉ ["subtype", "result", "is_error", "session_id"] by decide)
      simp only [hslots, List.map_cons, List.map_nil, Option.bind_some, Option.bind_eq_some_iff,
        withDefault_iff fun w _ => reads_string w, withDefault_iff fun w _ => reads_boolean w, optionalAnywhere_iff]
      cases m <;> simp [IsMessage, hkind, -Bool.exists_bool]
    next hsystem hstream hassistant huser hresult =>
      cases m <;> simp_all [IsMessage]

/-! ### Lines -/

/-- Lines that hold a value, with any white space around it. -/
def Holds (line : String) (v : Json) : Prop :=
  ∃ front text back, line.toList = front ++ text ++ back ∧ front.all Text.isSpace = true ∧ back.all Text.isSpace = true ∧
    Tree.parse? text = some v.tree ∧ v.tree.isSound = true

/-- Lines that are a message with this meaning for the turn. -/
def Translates (line : String) (es : List ProviderEvent) : Prop := ∃ m, Message.ofLine? line = some m ∧ m.events = es

/-- A part of a value, and its kind. -/
def Part (v : Json) (name kind : String) (w : Json) : Prop := v.field? name = some w ∧ w.kindOf? = some kind

/-- The text of a text block. -/
def blockText? (v : Json) : Option String :=
  if v.kindOf? = some "text" then some (((v.field? "text").bind str?).getD "") else none

/-- The texts of an assistant's message, in order. -/
def textsOf (v : Json) : List String :=
  ((v.field? "message").bind (Json.field? "content")).elim [] fun content => content.items.filterMap blockText?

variable {line : String}

theorem Holds.parse (h : Holds line v) : Tree.parse? (Text.trim line.toList) = some v.tree := by
  obtain ⟨front, text, back, hline, hfront, hback, hparse, -⟩ := h
  rw [hline, Text.trim_around hfront hback, parse?_trim hparse]

theorem Holds.isSound (h : Holds line v) : v.tree.isSound = true := by
  obtain ⟨-, -, -, -, -, -, -, hsound⟩ := h
  exact hsound

theorem ofLine?_of_holds (h : Holds line v) : Message.ofLine? line = Message.ofTree? v.tree := by
  simp only [Message.ofLine?, h.parse, Option.bind_eq_bind, Option.bind_some, h.isSound, if_true]

theorem holds_of_ofLine? {m : Message} (h : Message.ofLine? line = some m) : ∃ v, Holds line v := by
  obtain ⟨t, hparse, hread⟩ := Option.bind_eq_some_iff.mp h
  split at hread
  next hsound =>
    obtain ⟨v, rfl⟩ := exists_tree_of_isSound hsound
    obtain ⟨front, back, hfront, hback, hline⟩ := Text.trim_exists line.toList
    exact ⟨v, front, Text.trim line.toList, back, hline, hfront, hback, hparse, hsound⟩
  next => cases hread

theorem ofLine?_iff (hline : Holds line v) (hplain : Plain v) (m : Message) :
    Message.ofLine? line = some m ↔ IsMessage v m := by
  rw [ofLine?_of_holds hline]
  exact reads_message hplain m

theorem translates_iff (hline : Holds line v) (hplain : Plain v) (es : List ProviderEvent) :
    Translates line es ↔ ∃ m, IsMessage v m ∧ m.events = es := by
  simp only [Translates, ofLine?_iff hline hplain]

theorem needs_iff {α : Type} {means : Json → α → Prop} {name : String} {w : Json} (h : v.field? name = some w) (a : α) :
    v.Needs name means a ↔ means w a := by
  simp [Needs, h]

/-- A step means what its event says. -/
theorem translates_step {event : Json} (hline : Holds line v) (hplain : Plain v) (hkind : v.kindOf? = some "stream_event")
    (hevent : v.field? "event" = some event) (es : List ProviderEvent) :
    Translates line es ↔ ∃ step, IsStep event step ∧ (Message.stream step).events = es := by
  rw [translates_iff hline hplain]
  constructor
  · rintro ⟨m, hm, rfl⟩
    cases m <;> simp [IsMessage, hkind] at hm
    next step => exact ⟨step, (needs_iff hevent step).mp hm, rfl⟩
  · rintro ⟨step, hstep, rfl⟩
    exact ⟨.stream step, ⟨hkind, (needs_iff hevent step).mpr hstep⟩, rfl⟩

theorem translates_block {event block : Json} (hline : Holds line v) (hplain : Plain v)
    (hkind : v.kindOf? = some "stream_event") (hevent : Part v "event" "content_block_start" event)
    (hblock : event.field? "content_block" = some block) (es : List ProviderEvent) :
    Translates line es ↔ ∃ b, IsBlock block b ∧ (Message.stream (.blockStart b)).events = es := by
  rw [translates_step hline hplain hkind hevent.1]
  constructor
  · rintro ⟨step, hstep, rfl⟩
    cases step <;> simp [IsStep, hevent.2, stepKinds] at hstep
    next b => exact ⟨b, (needs_iff hblock b).mp hstep, rfl⟩
  · rintro ⟨b, hb, rfl⟩
    exact ⟨.blockStart b, ⟨hevent.2, (needs_iff hblock b).mpr hb⟩, rfl⟩

theorem translates_delta {event delta : Json} (hline : Holds line v) (hplain : Plain v)
    (hkind : v.kindOf? = some "stream_event") (hevent : Part v "event" "content_block_delta" event)
    (hdelta : event.field? "delta" = some delta) (es : List ProviderEvent) :
    Translates line es ↔ ∃ d, IsDelta delta d ∧ (Message.stream (.blockDelta d)).events = es := by
  rw [translates_step hline hplain hkind hevent.1]
  constructor
  · rintro ⟨step, hstep, rfl⟩
    cases step <;> simp [IsStep, hevent.2, stepKinds] at hstep
    next d => exact ⟨d, (needs_iff hdelta d).mp hstep, rfl⟩
  · rintro ⟨d, hd, rfl⟩
    exact ⟨.blockDelta d, ⟨hevent.2, (needs_iff hdelta d).mpr hd⟩, rfl⟩

/-! ### Texts of blocks -/

theorem textField_of_defaults {s : String} (h : v.Defaults "text" IsText "" s) :
    ((v.field? "text").bind str?).getD "" = s := by
  rcases h with ⟨hnone, rfl⟩ | ⟨w, hw, rfl⟩
  · rw [hnone]
    rfl
  · rw [hw]
    rfl

theorem blockText?_of_isBlock {b : Block} (h : IsBlock v b) : blockText? v = Message.blockText? b := by
  cases b with
  | text s =>
    obtain ⟨hkind, hs⟩ := h
    rw [blockText?, if_pos hkind, textField_of_defaults hs]
    rfl
  | toolUse name =>
    obtain ⟨hkind, -⟩ := h
    rw [blockText?, if_neg (by simp [hkind])]
    rfl
  | other =>
    obtain ⟨kind, hkind, hnew⟩ := h
    have hne : kind ≠ "text" := fun heq => hnew (heq ▸ List.mem_cons_self)
    rw [blockText?, if_neg (by simpa [hkind] using hne)]
    rfl

theorem filterMap_blocks {items : List Json} {blocks : List Block} (h : List.Forall₂ IsBlock items blocks) :
    items.filterMap blockText? = blocks.filterMap Message.blockText? := by
  induction h with
  | nil => rfl
  | cons hb _ ih => simp only [List.filterMap_cons, blockText?_of_isBlock hb, ih]

theorem textsOf_eq {content : List Block} (h : v.Needs "message" HasContent content) :
    textsOf v = content.filterMap Message.blockText? := by
  obtain ⟨message, hmessage, -, hcontent⟩ := h
  rw [textsOf, hmessage, Option.bind_some]
  rcases hcontent with ⟨hnone, rfl⟩ | ⟨w, hw, items, rfl, hitems⟩
  · rw [hnone]
    rfl
  · rw [hw]
    exact filterMap_blocks hitems

/-! ### What the lines mean -/

/-- The event of a delta of a known kind. -/
def IsDeltaEvent (delta : Json) : ProviderEvent → Prop
  | .answer s => delta.kindOf? = some "text_delta" ∧ delta.Needs "text" IsText s
  | .thinking s => delta.kindOf? = some "thinking_delta" ∧ delta.Needs "thinking" IsText s
  | .toolInput s => delta.kindOf? = some "input_json_delta" ∧ delta.Needs "partial_json" IsText s
  | _ => False

theorem delta_events {delta : Json} {kind : String} (hkind : delta.kindOf? = some kind) (hknown : kind ∈ deltaKinds)
    (es : List ProviderEvent) :
    (∃ d, IsDelta delta d ∧ (Message.stream (.blockDelta d)).events = es) ↔ ∃ e, IsDeltaEvent delta e ∧ es = [e] := by
  constructor
  · rintro ⟨d, hd, rfl⟩
    cases d with
    | text s => exact ⟨.answer s, hd, rfl⟩
    | thinking s => exact ⟨.thinking s, hd, rfl⟩
    | inputJson s => exact ⟨.toolInput s, hd, rfl⟩
    | other =>
      obtain ⟨kind', hkind', hnew⟩ := hd
      cases hkind.symm.trans hkind'
      exact absurd hknown hnew
  · rintro ⟨e, he, rfl⟩
    cases e with
    | answer s => exact ⟨.text s, he, rfl⟩
    | thinking s => exact ⟨.thinking s, he, rfl⟩
    | toolInput s => exact ⟨.inputJson s, he, rfl⟩
    | _ => exact he.elim

theorem toolUse_events {block : Json} (hkind : block.kindOf? = some "tool_use") (es : List ProviderEvent) :
    (∃ b, IsBlock block b ∧ (Message.stream (.blockStart b)).events = es) ↔
      ∃ name, block.Needs "name" IsText name ∧ es = [.toolStart name] := by
  constructor
  · rintro ⟨b, hb, rfl⟩
    cases b <;> simp [IsBlock, hkind, blockKinds] at hb
    next name => exact ⟨name, hb, rfl⟩
  · rintro ⟨name, hname, rfl⟩
    exact ⟨.toolUse name, ⟨hkind, hname⟩, rfl⟩

theorem otherBlock_events {block : Json} (hkind : block.kindOf? ≠ some "tool_use") {es : List ProviderEvent}
    (h : ∃ b, IsBlock block b ∧ (Message.stream (.blockStart b)).events = es) : es = [] := by
  obtain ⟨b, hb, rfl⟩ := h
  cases b with
  | toolUse name => exact absurd hb.1 hkind
  | text s => rfl
  | other => rfl

/-- The lines of the command follow the grammar. A line is a message exactly if it holds a value of one of the kinds, whose
fields are of their types, and it then means what this value says. -/
theorem lines_follow_grammar (line : String) :
    ((∀ v, ¬ Holds line v) → Message.ofLine? line = none) ∧
    ∀ v, Holds line v → Plain v →
      (∀ m, Message.ofLine? line = some m ↔ IsMessage v m) ∧
      (v.kindOf? = some "stream_event" →
        (∀ event kind, Part v "event" kind event → kind ∉ stepKinds → Translates line []) ∧
        (∀ event, Part v "event" "content_block_stop" event → Translates line [.blockStop]) ∧
        (∀ event, Part v "event" "content_block_start" event → ∀ block kind, Part event "content_block" kind block →
          (kind ∉ blockKinds → Translates line []) ∧
          (kind = "tool_use" → ∀ es, Translates line es ↔
            ∃ name, block.Needs "name" IsText name ∧ es = [.toolStart name]) ∧
          (kind ≠ "tool_use" → ∀ es, Translates line es → es = [])) ∧
        ∀ event, Part v "event" "content_block_delta" event → ∀ delta kind, Part event "delta" kind delta →
          (kind ∉ deltaKinds → Translates line []) ∧
          (kind ∈ deltaKinds → ∀ es, Translates line es ↔ ∃ e, IsDeltaEvent delta e ∧ es = [e])) ∧
      (v.kindOf? = some "assistant" → ∀ es, Translates line es →
        ∃ error, v.Spares "error" IsText error ∧ es = [.message "assistant" (textsOf v) error]) ∧
      (v.kindOf? = some "result" → ∀ es, Translates line es →
        ∃ subtype text isError, v.Defaults "subtype" IsText "" subtype ∧ v.Spares "result" IsText text ∧
          v.Defaults "is_error" IsFlag false isError ∧ es = [.result subtype (text.getD "") isError none]) ∧
      ∀ kind ∈ ["system", "user"], v.kindOf? = some kind → ∀ es, Translates line es → es = [] := by
  constructor
  · intro hnone
    cases hm : Message.ofLine? line with
    | none => rfl
    | some m =>
      obtain ⟨v, hv⟩ := holds_of_ofLine? hm
      exact absurd hv (hnone v)
  intro v hline hplain
  refine ⟨ofLine?_iff hline hplain, fun hkind => ⟨?_, ?_, ?_, ?_⟩, ?_, ?_, ?_⟩
  · intro event kind hevent hnew
    exact (translates_step hline hplain hkind hevent.1 []).mpr ⟨.other, ⟨kind, hevent.2, hnew⟩, rfl⟩
  · intro event hevent
    exact (translates_step hline hplain hkind hevent.1 _).mpr ⟨.blockStop, hevent.2, rfl⟩
  · intro event hevent block kind hblock
    have hmeans := translates_block hline hplain hkind hevent hblock.1
    refine ⟨fun hnew => (hmeans []).mpr ⟨.other, ⟨kind, hblock.2, hnew⟩, rfl⟩, ?_, ?_⟩
    · rintro rfl es
      exact (hmeans es).trans (toolUse_events hblock.2 es)
    · intro hne es hes
      have hother : block.kindOf? ≠ some "tool_use" := by simpa [hblock.2] using hne
      exact otherBlock_events hother ((hmeans es).mp hes)
  · intro event hevent delta kind hdelta
    have hmeans := translates_delta hline hplain hkind hevent hdelta.1
    exact ⟨fun hnew => (hmeans []).mpr ⟨.other, ⟨kind, hdelta.2, hnew⟩, rfl⟩,
      fun hknown es => (hmeans es).trans (delta_events hdelta.2 hknown es)⟩
  · intro hkind es hes
    obtain ⟨m, hm, rfl⟩ := (translates_iff hline hplain es).mp hes
    cases m <;> simp [IsMessage, hkind] at hm
    next content error => exact ⟨error, hm.2, by rw [textsOf_eq hm.1]; rfl⟩
  · intro hkind es hes
    obtain ⟨m, hm, rfl⟩ := (translates_iff hline hplain es).mp hes
    cases m <;> simp [IsMessage, hkind] at hm
    next subtype text isError id =>
      obtain ⟨hsubtype, htext, herror, -⟩ := hm
      exact ⟨subtype, text, isError, hsubtype, htext, herror, rfl⟩
  · intro kind hsilent hkind es hes
    obtain ⟨m, hm, rfl⟩ := (translates_iff hline hplain es).mp hes
    rcases List.mem_pair.mp hsilent with rfl | rfl <;> cases m <;> simp [IsMessage, hkind] at hm <;> rfl

/-- A message whose fields come in any order, between blocks of which only some are text, is one message with their texts. A line
that holds no value is none. -/
theorem mixed_blocks_are_one_message :
    let blocks := "[\x7b\"text\":\"a\",\"type\":\"text\"\x7d,\x7b\"type\":\"image\",\"text\":7\x7d,\x7b\"type\":\"text\"\x7d]"
    let text := "\x7b\"message\":\x7b\"content\":" ++ blocks ++ "\x7d,\"error\":null,\"type\":\"assistant\"\x7d"
    let line := " " ++ text ++ "\t"
    let content : Json := .arr [.obj [("text", .str "a"), ("type", .str "text")],
      .obj [("type", .str "image"), ("text", nat 7)], .obj [("type", .str "text")]]
    let v : Json := .obj [("message", .obj [("content", content)]), ("error", .null), ("type", .str "assistant")]
    Holds line v ∧ Plain v ∧ Message.ofLine? line = some (.assistant [.text "a", .other, .text ""] none) ∧
    Translates line [.message "assistant" ["a", ""] none] ∧ (∀ w, ¬ Holds "oops" w) ∧ Message.ofLine? "oops" = none := by
  intro blocks text line content v
  have hexact : IsExact v := by simp [v, content, IsExact, IsExactItems, IsExactFields, isExact_nat]
  have hwritten : text.toList = v.renderChars := by decide +kernel
  have hparse : Tree.parse? text.toList = some v.tree := by rw [hwritten, parse?_render hexact]
  have hchars : line.toList = [' '] ++ text.toList ++ ['\t'] := by simp only [line, String.toList_append]; rfl
  have hline : Holds line v := ⟨[' '], text.toList, ['\t'], hchars, by decide, by decide, hparse, by decide⟩
  have htagged {fields : List (String × Json)} {kind : String} (hnames : (fields.map Prod.fst).Nodup)
      (htag : (Json.obj fields).field? "type" = some (.str kind)) : (Json.obj fields).IsTagged :=
    ⟨hnames, fun n hn => by cases htag.symm.trans hn⟩
  have hblocks : ∀ w ∈ content.items, w.IsTagged := by
    intro w hw
    rcases List.mem_cons.mp hw with rfl | hw
    · exact htagged (by decide) rfl
    rcases List.mem_pair.mp hw with rfl | rfl
    · exact htagged (by decide) rfl
    · exact htagged (by decide) rfl
  have hmessage : PlainContent (.obj [("content", content)]) := by
    refine ⟨List.nodup_singleton _, fun items hitems => ?_⟩
    cases hitems
    exact hblocks
  have hnames : v.ByName := by
    have hnodup : ["message", "error", "type"].Nodup := by decide
    exact hnodup
  have hkind : v.kindOf? = some "assistant" := rfl
  have hplain : Plain v := by
    refine ⟨hnames, fun w hstream => ?_, fun w _ hw => ?_⟩
    · exact absurd (hkind.symm.trans hstream) (by decide)
    · cases hw
      exact hmessage
  have hnone : ∀ w, ¬ Holds "oops" w := by
    intro w hw
    have hparse : Tree.parse? (Text.trim "oops".toList) = none := by decide +kernel
    cases hparse.symm.trans hw.parse
  obtain ⟨-, hgrammar⟩ := lines_follow_grammar line
  obtain ⟨hiff, -⟩ := hgrammar v hline hplain
  have hread : Message.ofLine? line = some (.assistant [.text "a", .other, .text ""] none) := by
    refine (hiff _).mpr ⟨rfl, ⟨_, rfl, rfl, .inr ⟨_, rfl, _, rfl, ?_⟩⟩, .inl ⟨.inr rfl, rfl⟩⟩
    refine .cons ⟨rfl, .inr ⟨_, rfl, rfl⟩⟩ (.cons ⟨"image", rfl, by decide⟩ (.cons ⟨rfl, .inl ⟨rfl, rfl⟩⟩ .nil))
  exact ⟨hline, hplain, hread, ⟨_, hread, rfl⟩, hnone, (lines_follow_grammar "oops").1 hnone⟩

end Claude

end StackDeck
