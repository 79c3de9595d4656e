import StackDeck.Diagnosis.Chunk
import StackDeck.Log.Line
import StackDeck.Proofs.Json.Format
import StackDeck.Proofs.Time.Timestamp
import StackDeck.Service.Health
import StackDeck.Service.Status

/-!
The records that are exchanged as JSON, each with the names of its form and the fields that may be missing.
All of them are read back exactly, timestamps included.
-/

namespace StackDeck

open Json Json.Tree

namespace Service

def format : Format Service where
  encode := toJson
  decode := ofTree?
  writable _ := True
  names _ := ["name", "running", "state", "port", "health_url"]
  optionals := [("port", fun s => s.port.isSome), ("health_url", fun s => s.healthUrl.isSome)]
  ignorable _ := True

theorem isExact_toJson (s : Service) : IsExact s.toJson := by
  refine isExact_object fun f hf => ?_
  simp only [List.mem_append, List.mem_cons, List.not_mem_nil, or_false] at hf
  rcases hf with ((rfl | rfl | rfl) | hf) | hf
  · trivial
  · trivial
  · trivial
  · exact isExact_optionalField (fun p => isExact_nat (p.toNat_lt.trans (by decide))) f hf
  · exact isExact_optionalField (f := Json.str) (fun _ => trivial) f hf

theorem decode_toJson (s : Service) : ofTree? s.toJson.tree = some s := by
  have hkeys : ∀ p u : Bool, (["name", "running", "state"] ++ (if p then ["port"] else []) ++
      if u then ["health_url"] else []).Nodup := by decide
  rw [ofTree?, toJson, slots?_object]
  · obtain ⟨name, running, state, port, url⟩ := s
    cases port <;> cases url <;> simp [slotOf, optionalField]
  · rw [List.map_append, List.map_append, keys_optionalField, keys_optionalField]
    exact hkeys _ _

theorem format_faithful : format.Faithful := by
  refine .of_record (fun _ => rfl) (fun _ => rfl) (by decide) isExact_toJson (fun s _ => decode_toJson s) (fun _ => trivial) ?_
  intro p hp
  simp only [format, List.mem_cons, List.not_mem_nil, or_false] at hp
  rcases hp with rfl | rfl
  · refine ⟨by decide, fun slots hlen => ?_, fun slots v h => ?_⟩
    · match slots, hlen with
      | [_, _, _, _, _], _ => rfl
    · split at h
      · simp only [Option.bind_eq_bind, Option.bind_eq_some_iff] at h
        obtain ⟨_, -, _, -, _, -, port, hport, _, -, hv⟩ := h
        obtain rfl := Option.some.inj hv
        exact ⟨_, rfl, Slot.optionalAnywhere_isSome hport⟩
      · exact absurd h nofun
  · refine ⟨by decide, fun slots hlen => ?_, fun slots v h => ?_⟩
    · match slots, hlen with
      | [_, _, _, _, _], _ => rfl
    · split at h
      · simp only [Option.bind_eq_bind, Option.bind_eq_some_iff] at h
        obtain ⟨_, -, _, -, _, -, _, -, url, hurl, hv⟩ := h
        obtain rfl := Option.some.inj hv
        exact ⟨_, rfl, Slot.optionalAnywhere_isSome hurl⟩
      · exact absurd h nofun

end Service

namespace Progress

def format : Format Progress where
  encode := toJson
  decode := ofTree?
  writable _ := True
  names _ := ["phase", "message"]
  optionals := []
  ignorable _ := True

theorem isExact_toJson (p : Progress) : IsExact p.toJson := by
  refine isExact_object fun f hf => ?_
  simp only [List.mem_cons, List.not_mem_nil, or_false] at hf
  rcases hf with rfl | rfl <;> trivial

theorem decode_toJson (p : Progress) : ofTree? p.toJson.tree = some p := by
  have hkeys : ["phase", "message"].Nodup := by decide
  rw [ofTree?, toJson, slots?_object]
  · simp [slotOf]
  · exact hkeys

theorem format_faithful : format.Faithful :=
  .of_record (fun _ => rfl) (fun _ => rfl) (by decide) isExact_toJson (fun p _ => decode_toJson p) (fun _ => trivial) nofun

end Progress

/-! ### Sources of output -/

namespace Log.Source

/-- A field that neither kind of source has must still be sound: all of a tagged record is read before its kind
is known. -/
def format : Format Source where
  encode := toJson
  decode := ofTree?
  writable _ := True
  names
    | .file _ => ["type", "path"]
    | .container _ => ["type", "id"]
  optionals := []
  ignorable u := (u.value? (depthLimit - 1)).isSome = true

theorem isExact_toJson (s : Source) : IsExact s.toJson := by
  cases s <;>
  · refine isExact_object fun f hf => ?_
    simp only [List.mem_cons, List.not_mem_nil, or_false] at hf
    rcases hf with rfl | rfl <;> trivial

/-- A record of one text. -/
def ofField? (key : String) (make : String → Source) (rest : Tree) : Option Source :=
  (slots? [key] rest).bind fun
    | [slot] => (slot.required string?).map make
    | _ => none

/-- The rest of a tagged record, read as its kind demands. -/
def ofTagged? (tagged : String × Tree) : Option Source :=
  if tagged.1 = "file" then ofField? "path" .file tagged.2
  else if tagged.1 = "container" then ofField? "id" .container tagged.2
  else none

theorem ofTree?_eq (t : Tree) : ofTree? t = if t.isSound then t.tagged?.bind ofTagged? else none := by
  rw [ofTree?]
  cases t.isSound with
  | false => rfl
  | true =>
    cases t.tagged? with
    | none => rfl
    | some tagged =>
      obtain ⟨kind, rest⟩ := tagged
      show _ = ofTagged? (kind, rest)
      by_cases hf : kind = "file"
      · subst hf
        rfl
      · by_cases hc : kind = "container"
        · subst hc
          rfl
        · simp [ofTagged?, hf, hc]

theorem ofTree?_eq_some {t : Tree} {s : Source} :
    ofTree? t = some s ↔ t.isSound = true ∧ ∃ tagged, t.tagged? = some tagged ∧ ofTagged? tagged = some s := by
  rw [ofTree?_eq, Option.ite_none_right_eq_some, Option.bind_eq_some_iff]

theorem decode_toJson (s : Source) : ofTree? s.toJson.tree = some s := by
  have hjson (key value kind : String) (hkey : key < "type") :
      (object [("type", .str kind), (key, .str value)]).tree =
        .obj [(some key, .str (some value)), (some "type", .str (some kind))] := by
    have hne : key ≠ "type" := by
      rintro rfl
      exact absurd hkey (by decide)
    simp [object, insertField, hkey, tree, treeFields]
  have hsound (key value kind : String) :
      (Tree.obj [(some key, .str (some value)), (some "type", .str (some kind))]).isSound = true := by
    simp [isSound_obj, value?]
  cases s with
  | file path =>
    rw [toJson, hjson _ _ _ (by decide)]
    exact ofTree?_eq_some.mpr ⟨hsound _ _ _, ("file", .obj [(some "path", .str (some path))]), rfl, rfl⟩
  | container id =>
    rw [toJson, hjson _ _ _ (by decide)]
    exact ofTree?_eq_some.mpr ⟨hsound _ _ _, ("container", .obj [(some "id", .str (some id))]), rfl, rfl⟩

theorem ofField?_other {name key : String} {make : String → Source} {front back : List (Option String × Tree)}
    {u : Tree} (hkey : key ≠ name) :
    ofField? name make (.obj (front ++ (some key, u) :: back)) = ofField? name make (.obj (front ++ back)) := by
  rw [ofField?, slots?_other (by simpa using hkey), ofField?]

theorem ofField?_make {name : String} {make : String → Source} {rest : Tree} {s : Source}
    (h : ofField? name make rest = some s) : ∃ value, s = make value := by
  obtain ⟨slots, -, hs⟩ := Option.bind_eq_some_iff.mp h
  split at hs
  · obtain ⟨value, -, rfl⟩ := Option.map_eq_some_iff.mp hs
    exact ⟨value, rfl⟩
  · exact absurd hs nofun

/-- The rest of a record may have more fields than its kind. -/
theorem ofTagged?_other {kind key : String} {front back : List (Option String × Tree)} {u : Tree} {s : Source}
    (hkey : key ∉ format.names s) (h : ofTagged? (kind, .obj (front ++ back)) = some s) :
    ofTagged? (kind, .obj (front ++ (some key, u) :: back)) = some s := by
  rw [ofTagged?] at h ⊢
  split at h
  next hf =>
    obtain ⟨path, rfl⟩ := ofField?_make h
    have hne : key ≠ "path" := by
      rintro rfl
      exact hkey (by simp [format])
    rw [if_pos hf, ofField?_other hne, h]
  next hf =>
    rw [if_neg hf]
    split at h
    next hc =>
      obtain ⟨id, rfl⟩ := ofField?_make h
      have hne : key ≠ "id" := by
        rintro rfl
        exact hkey (by simp [format])
      rw [if_pos hc, ofField?_other hne, h]
    next => exact absurd h nofun

theorem format_faithful : format.Faithful where
  reads_back := Format.reads_back_of_decode isExact_toJson fun s _ => decode_toJson s
  writable_of_decode _ := trivial
  stable h := Format.stable_of_reads_back (fun _ => trivial)
    (Format.reads_back_of_decode isExact_toJson fun s _ => decode_toJson s) h
  ignores {front back key u s} h hkey hu := by
    obtain ⟨hsound, ⟨kind, rest⟩, htagged, hs⟩ := ofTree?_eq_some.mp h
    have htype : key ≠ "type" := by
      rintro rfl
      cases s <;> exact hkey List.mem_cons_self
    obtain ⟨front', back', rfl, htagged'⟩ := tagged?_other (u := u) htype htagged
    exact ofTree?_eq_some.mpr ⟨isSound_other hu hsound, _, htagged', ofTagged?_other hkey hs⟩
  optional _ _ hp := absurd hp List.not_mem_nil
  null _ hp := absurd hp List.not_mem_nil

end Log.Source

/-! ### Timestamps -/

theorem valid_of_string? {u : Tree} {t : Instant} (h : u.string?.bind Instant.ofRelaxed? = some t) : t.Valid := by
  obtain ⟨s, -, hs⟩ := Option.bind_eq_some_iff.mp h
  exact Instant.valid_of_ofRelaxed? hs

theorem valid_of_required {s : Slot} {t : Instant}
    (h : s.required (fun u => u.string?.bind Instant.ofRelaxed?) = some t) : t.Valid := by
  cases s with
  | given u => exact valid_of_string? h
  | absent => exact absurd h nofun
  | cut => exact absurd h nofun

namespace Log.Line

def format : Format Line where
  encode := toJson
  decode := ofTree?
  writable l := l.timestamp.Valid
  names _ := ["service", "timestamp", "level", "message", "raw"]
  optionals := []
  ignorable _ := True

theorem isExact_toJson (l : Line) : IsExact l.toJson := by
  refine isExact_object fun f hf => ?_
  simp only [List.mem_cons, List.not_mem_nil, or_false] at hf
  rcases hf with rfl | rfl | rfl | rfl | rfl <;> trivial

theorem choice?_level (l : Level) : choice? Level.names (Json.str l.name).tree = some l := by
  cases l <;> rfl

theorem decode_toJson (l : Line) (h : l.timestamp.Valid) : ofTree? l.toJson.tree = some l := by
  have hkeys : ["service", "timestamp", "level", "message", "raw"].Nodup := by decide
  rw [ofTree?, toJson, toJsonWith, slots?_object]
  · simp [slotOf, Instant.ofRelaxed?_render h, choice?_level]
  · exact hkeys

theorem valid_of_decode {t : Tree} {l : Line} (h : ofTree? t = some l) : l.timestamp.Valid := by
  obtain ⟨slots, -, h⟩ := Option.bind_eq_some_iff.mp h
  split at h
  · simp only [Option.bind_eq_bind, Option.bind_eq_some_iff] at h
    obtain ⟨_, -, timestamp, htimestamp, _, -, _, -, _, -, hl⟩ := h
    obtain rfl := Option.some.inj hl
    exact valid_of_required htimestamp
  · exact absurd h nofun

theorem format_faithful : format.Faithful :=
  .of_record (fun _ => rfl) (fun _ => rfl) (by decide) isExact_toJson decode_toJson valid_of_decode nofun

end Log.Line

namespace ServiceHealth

def format : Format ServiceHealth where
  encode := toJson
  decode := ofTree?
  writable h := h.lastCheck.Valid
  names _ := ["status", "last_check", "last_error", "consecutive_failures"]
  optionals := [("last_error", fun h => h.lastError.isSome)]
  ignorable _ := True

theorem isExact_toJson (h : ServiceHealth) : IsExact h.toJson := by
  refine isExact_object fun f hf => ?_
  simp only [List.mem_append, List.mem_cons, List.not_mem_nil, or_false] at hf
  rcases hf with ((rfl | rfl) | hf) | rfl
  · trivial
  · trivial
  · exact isExact_optionalField (f := Json.str) (fun _ => trivial) f hf
  · exact isExact_nat (h.consecutiveFailures.toNat_lt.trans (by decide))

theorem choice?_status (s : HealthStatus) : choice? HealthStatus.names (Json.str s.name).tree = some s := by
  cases s <;> rfl

theorem decode_toJson (h : ServiceHealth) (hv : h.lastCheck.Valid) : ofTree? h.toJson.tree = some h := by
  have hkeys : ∀ e : Bool, (["status", "last_check"] ++ (if e then ["last_error"] else []) ++
      ["consecutive_failures"]).Nodup := by decide
  rw [ofTree?, toJson, toJsonWith, slots?_object]
  · obtain ⟨status, lastCheck, error, failures⟩ := h
    cases error <;> simp [slotOf, optionalField, Instant.ofRelaxed?_render hv, choice?_status]
  · rw [List.map_append, List.map_append, keys_optionalField]
    exact hkeys _

theorem valid_of_decode {t : Tree} {h : ServiceHealth} (hd : ofTree? t = some h) : h.lastCheck.Valid := by
  obtain ⟨slots, -, hd⟩ := Option.bind_eq_some_iff.mp hd
  split at hd
  · simp only [Option.bind_eq_bind, Option.bind_eq_some_iff] at hd
    obtain ⟨_, -, lastCheck, hcheck, _, -, _, -, hh⟩ := hd
    obtain rfl := Option.some.inj hh
    exact valid_of_required hcheck
  · exact absurd hd nofun

theorem format_faithful : format.Faithful := by
  refine .of_record (fun _ => rfl) (fun _ => rfl) (by decide) isExact_toJson decode_toJson valid_of_decode ?_
  intro p hp
  rw [List.mem_singleton.mp hp]
  refine ⟨by decide, fun slots hlen => ?_, fun slots v h => ?_⟩
  · match slots, hlen with
    | [_, _, _, _], _ => rfl
  · split at h
    · simp only [Option.bind_eq_bind, Option.bind_eq_some_iff] at h
      obtain ⟨_, -, _, -, error, herror, _, -, hv⟩ := h
      obtain rfl := Option.some.inj hv
      exact ⟨_, rfl, Slot.optionalAnywhere_isSome herror⟩
    · exact absurd h nofun

end ServiceHealth

namespace Diagnosis.Chunk

def format : Format Chunk where
  encode := toJson
  decode := ofTree?
  writable _ := True
  names _ := ["kind", "text", "source", "seq"]
  optionals := []
  ignorable _ := True

theorem isExact_toJson (c : Chunk) : IsExact c.toJson := by
  refine isExact_object fun f hf => ?_
  simp only [List.mem_cons, List.not_mem_nil, or_false] at hf
  rcases hf with rfl | rfl | rfl | rfl
  · trivial
  · trivial
  · trivial
  · exact isExact_nat c.seq.toNat_lt

theorem choice?_kind (k : ChunkKind) : choice? ChunkKind.names (Json.str k.name).tree = some k := by
  cases k <;> rfl

theorem decode_toJson (c : Chunk) : ofTree? c.toJson.tree = some c := by
  have hkeys : ["kind", "text", "source", "seq"].Nodup := by decide
  rw [ofTree?, toJson, slots?_object]
  · simp [slotOf, choice?_kind]
  · exact hkeys

theorem format_faithful : format.Faithful :=
  .of_record (fun _ => rfl) (fun _ => rfl) (by decide) isExact_toJson (fun c _ => decode_toJson c) (fun _ => trivial) nofun

end Diagnosis.Chunk

namespace Diagnosis.TurnDebug

def format : Format TurnDebug where
  encode := toJson
  decode := ofTree?
  writable _ := True
  names _ := ["message_count", "event_count", "stream_chars", "assistant_chars", "result_chars", "last_message_type",
    "last_event_type", "timeout_secs", "raw_tail"]
  optionals := [("last_message_type", fun d => d.lastMessageType.isSome),
    ("last_event_type", fun d => d.lastEventType.isSome)]
  ignorable _ := True

theorem isExact_toJson (d : TurnDebug) : IsExact d.toJson := by
  refine isExact_object fun f hf => ?_
  simp only [List.mem_append, List.mem_cons, List.not_mem_nil, or_false] at hf
  rcases hf with (((rfl | rfl | rfl | rfl | rfl) | hf) | hf) | rfl | rfl
  · exact isExact_nat (d.messageCount.toNat_lt.trans (by decide))
  · exact isExact_nat (d.eventCount.toNat_lt.trans (by decide))
  · exact isExact_nat d.streamChars.toNat_lt
  · exact isExact_nat d.assistantChars.toNat_lt
  · exact isExact_nat d.resultChars.toNat_lt
  · exact isExact_optionalField (f := Json.str) (fun _ => trivial) f hf
  · exact isExact_optionalField (f := Json.str) (fun _ => trivial) f hf
  · exact isExact_nat d.timeoutSecs.toNat_lt
  · trivial

theorem decode_toJson (d : TurnDebug) : ofTree? d.toJson.tree = some d := by
  have hkeys : ∀ m e : Bool, (["message_count", "event_count", "stream_chars", "assistant_chars", "result_chars"] ++
      (if m then ["last_message_type"] else []) ++ (if e then ["last_event_type"] else []) ++
      ["timeout_secs", "raw_tail"]).Nodup := by decide
  rw [ofTree?, toJson, slots?_object]
  · obtain ⟨messages, events, stream, assistant, result, messageType, eventType, timeout, tail⟩ := d
    cases messageType <;> cases eventType <;> simp [slotOf, optionalField]
  · rw [List.map_append, List.map_append, List.map_append, keys_optionalField, keys_optionalField]
    exact hkeys _ _

theorem format_faithful : format.Faithful := by
  refine .of_record (fun _ => rfl) (fun _ => rfl) (by decide) isExact_toJson (fun d _ => decode_toJson d) (fun _ => trivial) ?_
  intro p hp
  simp only [format, List.mem_cons, List.not_mem_nil, or_false] at hp
  rcases hp with rfl | rfl
  · refine ⟨by decide, fun slots hlen => ?_, fun slots v h => ?_⟩
    · match slots, hlen with
      | [_, _, _, _, _, _, _, _, _], _ => rfl
    · split at h
      · simp only [Option.bind_eq_bind, Option.bind_eq_some_iff] at h
        obtain ⟨_, -, _, -, _, -, _, -, _, -, kind, hkind, _, -, _, -, _, -, hv⟩ := h
        obtain rfl := Option.some.inj hv
        exact ⟨_, rfl, Slot.optional_isSome hkind⟩
      · exact absurd h nofun
  · refine ⟨by decide, fun slots hlen => ?_, fun slots v h => ?_⟩
    · match slots, hlen with
      | [_, _, _, _, _, _, _, _, _], _ => rfl
    · split at h
      · simp only [Option.bind_eq_bind, Option.bind_eq_some_iff] at h
        obtain ⟨_, -, _, -, _, -, _, -, _, -, _, -, kind, hkind, _, -, _, -, hv⟩ := h
        obtain rfl := Option.some.inj hv
        exact ⟨_, rfl, Slot.optional_isSome hkind⟩
      · exact absurd h nofun

end Diagnosis.TurnDebug

/-! ### All of them -/

/-- Every record of the data model is read back from its text exactly as it was written, and what is read from any
JSON is written as text that is read as the same record and written as the same text: fields of other names are
passed over, and optional fields are there exactly if something other than null stood for them. Lines and health
records carry an instant, which may be any that a clock of the calendar shows, leap seconds and years of more than
four digits among them; it is written with the shortest fraction that shows its nanoseconds. -/
theorem records_round_trip :
    Service.format.Faithful ∧ Log.Source.format.Faithful ∧ Progress.format.Faithful ∧ Log.Line.format.Faithful ∧
      ServiceHealth.format.Faithful ∧ Diagnosis.Chunk.format.Faithful ∧ Diagnosis.TurnDebug.format.Faithful ∧
      ∀ t : Instant,
        (t.Valid → Instant.ofRelaxed? t.render = some t) ∧
        ∃ front ds, t.renderChars = front ++ Instant.pointed ds ++ ['Z'] ∧ '.' ∉ front ∧
          Instant.Fraction (t.nanos % Instant.billion) ds ∧
          ∀ es, Instant.Fraction (t.nanos % Instant.billion) es → ds.length ≤ es.length :=
  ⟨Service.format_faithful, Log.Source.format_faithful, Progress.format_faithful, Log.Line.format_faithful,
    ServiceHealth.format_faithful, Diagnosis.Chunk.format_faithful, Diagnosis.TurnDebug.format_faithful,
    fun t => ⟨Instant.ofRelaxed?_render, t.renderChars_shortest⟩⟩

/-- A line of the last nanosecond of a leap second, in a year of five digits. -/
def lateLine : Log.Line where
  service := "api"
  timestamp := ⟨327403382399, 1999999999⟩
  level := .warn
  message := "clock: \"stepped\""
  raw := "WARN clock: \"stepped\"\t"

theorem late_line_round_trips :
    Log.Line.format.writable lateLine ∧ Log.Line.format.read? (Log.Line.format.write lateLine) = some lateLine :=
  have h : lateLine.timestamp.Valid := ⟨by decide, .inr (by decide)⟩
  ⟨h, records_round_trip.2.2.2.1.reads_back lateLine h⟩

end StackDeck
