import StackDeck.Proofs.Diagnosis.Call
import StackDeck.Proofs.Diagnosis.Clock
import StackDeck.Proofs.Log.History
import StackDeck.Proofs.Log.Message
import StackDeck.Proofs.Time.Shown

/-!
The first prompt of a session shows log lines between two fences, one line each. No log text holds a line end, and no
entry is a fence, so what the log says stays between them.
-/

namespace StackDeck

/-- A log line that was read from one line of output. -/
def Log.Line.IsRead (l : Log.Line) : Prop :=
  ∃ (now : Instant) (service raw : String), '\n' ∉ raw.toList ∧ l = Log.parseLine now service raw

namespace Diagnosis

open Text Instant

variable {service : String} {recent : List Log.Line} {l : Log.Line}

/-- Hour, minute and second, two digits each. -/
def timeOfDay (f : Time.Fields) : List Char :=
  padded 2 f.hour ++ ':' :: (padded 2 f.minute ++ ':' :: padded 2 f.second)

/-- A log line as the prompt shows it: the time in UTC, the level and the message. -/
def entry (l : Log.Line) : List Char :=
  timeOfDay (Time.shown l.timestamp 0) ++ " [".toList ++ l.level.name.toList ++ "] ".toList ++ l.message.toList

/-- The line that fences log text. -/
def fenceLine : List Char := ['`', '`', '`']

def opening (service : String) : List Char :=
  "The service `".toList ++ service.toList ++ "` in my local development stack is misbehaving. ".toList ++
    "Diagnose the most likely root cause and suggest a concrete fix. ".toList ++
    "Inspect the code and configuration as needed.".toList

/-- The line that says how many log lines follow. -/
def announcement (n : Nat) : List Char := "Recent log output (".toList ++ Nat.toDigits 10 n ++ " lines):".toList

/-- What stands before the log lines. -/
def preamble (service : String) (n : Nat) : List (List Char) := [opening service, [], announcement n]

theorem clockChars_eq (t : Instant) : t.clockChars = timeOfDay (Time.shown t 0) := by
  have hsame : (⟨t.seconds + 0 * 60, t.nanos⟩ : Instant) = t := by rw [Int.zero_mul, Int.add_zero]
  rw [Time.shown, hsame]
  rfl

theorem promptLine_eq (l : Log.Line) : (promptLine l).toList = entry l ++ ['\n'] := by
  have htime : l.timestamp.renderClock.toList = timeOfDay (Time.shown l.timestamp 0) := by
    rw [renderClock, String.toList_ofList, clockChars_eq]
  show (l.timestamp.renderClock ++ " [" ++ l.level.name ++ "] " ++ l.message ++ "\n").toList = _
  simp only [String.toList_append, htime, entry]
  rfl

theorem announcement_eq (n : Nat) : s!"Recent log output ({n} lines):\n" = String.ofList (announcement n ++ ['\n']) := by
  have hend : " lines):\n".toList = " lines):".toList ++ ['\n'] := rfl
  refine String.toList_inj.mp ?_
  show ("Recent log output (" ++ n.repr ++ " lines):\n").toList = _
  delta announcement
  simp only [String.toList_append, String.toList_ofList, Nat.toList_repr, hend, List.append_assoc]

/-- The prompt is a list of lines, each of them ended. -/
theorem initialPrompt_eq (service : String) (h : recent ≠ []) :
    (initialPrompt service recent).toList =
      (preamble service recent.length ++ fenceLine :: (recent.map entry ++ [fenceLine])).flatMap fun l => l ++ ['\n'] := by
  have hend : "Inspect the code and configuration as needed.\n\n".toList =
      "Inspect the code and configuration as needed.".toList ++ ['\n', '\n'] := rfl
  have hfence : fence.toList = fenceLine ++ ['\n'] := rfl
  have hlines : recent.flatMap (fun l => (promptLine l).toList) = recent.flatMap fun l => entry l ++ ['\n'] :=
    List.flatMap_congr fun l _ => promptLine_eq l
  delta initialPrompt preamble opening
  rw [if_neg (by simpa using h), announcement_eq]
  simp only [String.toList_append, String.toList_ofList, String.toList_join, List.flatMap_map, hlines, hend, hfence]
  simp only [List.flatMap_append, List.flatMap_cons, List.flatMap_nil, List.flatMap_map, List.append_assoc,
    List.cons_append, List.nil_append, List.append_nil]

/-! ### Line ends -/

theorem isLineEnd_of_isDigit {c : Char} (h : c.isDigit = true) : Log.isLineEnd c = false := by
  have hc := Json.toNat_of_isDigit h
  exact Log.isLineEnd_of_space_le (by omega)

theorem isLineEnd_of_mem_timeOfDay {f : Time.Fields} {c : Char} (h : c ∈ timeOfDay f) : Log.isLineEnd c = false := by
  simp only [timeOfDay, List.mem_append, List.mem_cons] at h
  rcases h with h | rfl | h | rfl | h
  · exact isLineEnd_of_isDigit (isDigit_of_mem_padded h)
  · rfl
  · exact isLineEnd_of_isDigit (isDigit_of_mem_padded h)
  · rfl
  · exact isLineEnd_of_isDigit (isDigit_of_mem_padded h)

theorem isLineEnd_of_mem_name {level : Log.Level} {c : Char} (h : c ∈ level.name.toList) : Log.isLineEnd c = false := by
  have hall : level.name.toList.all (fun c => !Log.isLineEnd c) = true := by cases level <;> rfl
  simpa using List.all_eq_true.mp hall c h

/-- What was read from one line is shown on one line. -/
theorem isLineEnd_of_mem_entry (hl : l.IsRead) {c : Char} (h : c ∈ entry l) : Log.isLineEnd c = false := by
  obtain ⟨now, service, raw, hraw, rfl⟩ := hl
  simp only [entry, List.mem_append] at h
  rcases h with (((h | h) | h) | h) | h
  · exact isLineEnd_of_mem_timeOfDay h
  · have hopen : " [".toList.all (fun c => !Log.isLineEnd c) = true := rfl
    simpa using List.all_eq_true.mp hopen c h
  · exact isLineEnd_of_mem_name h
  · have hclose : "] ".toList.all (fun c => !Log.isLineEnd c) = true := rfl
    simpa using List.all_eq_true.mp hclose c h
  · exact Log.isLineEnd_of_mem_message hraw h

theorem feed_not_mem_opening (hservice : '\n' ∉ service.toList) : '\n' ∉ opening service := by
  delta opening
  simp only [List.mem_append, not_or]
  exact ⟨⟨⟨⟨by decide, hservice⟩, by decide⟩, by decide⟩, by decide⟩

theorem feed_not_mem_announcement (n : Nat) : '\n' ∉ announcement n := by
  delta announcement
  simp only [List.mem_append, not_or]
  exact ⟨⟨by decide, fun h => absurd (Json.isDigit_of_mem_toDigits h) (by decide)⟩, by decide⟩

/-! ### Fences -/

theorem fenceLine_not_mem_preamble (service : String) (n : Nat) : fenceLine ∉ preamble service n := by
  have hopening : (opening service).head? = some 'T' := rfl
  have hannouncement : (announcement n).head? = some 'R' := rfl
  intro h
  rcases List.mem_cons.mp h with h | h
  · exact absurd (h ▸ hopening) (by decide)
  · rcases List.mem_cons.mp h with h | h
    · exact absurd h (by decide)
    · exact absurd (List.mem_singleton.mp h ▸ hannouncement) (by decide)

/-- The time in front tells an entry from a fence. -/
theorem entry_ne_fenceLine (l : Log.Line) : entry l ≠ fenceLine := by
  intro h
  have hblank : ' ' ∈ entry l := by simp [entry]
  rw [h] at hblank
  exact absurd hblank (by decide)

theorem fenceLine_not_mem_entries (recent : List Log.Line) : fenceLine ∉ recent.map entry := fun h => by
  obtain ⟨l, -, hl⟩ := List.mem_map.mp h
  exact entry_ne_fenceLine l hl

theorem splitLines_initialPrompt (hservice : '\n' ∉ service.toList) (hne : recent ≠ [])
    (hrecent : ∀ l ∈ recent, l.IsRead) :
    splitLines (initialPrompt service recent).toList =
      (preamble service recent.length ++ fenceLine :: (recent.map entry ++ [fenceLine]), []) := by
  rw [initialPrompt_eq service hne]
  refine splitLines_ended fun line hline hfeed => ?_
  simp only [preamble, List.mem_append, List.mem_cons, List.not_mem_nil, or_false, List.mem_map] at hline
  rcases hline with (rfl | rfl | rfl) | rfl | ⟨l, hl, rfl⟩ | rfl
  · exact feed_not_mem_opening hservice hfeed
  · exact List.not_mem_nil hfeed
  · exact feed_not_mem_announcement _ hfeed
  · exact absurd hfeed (by decide)
  · exact absurd (isLineEnd_of_mem_entry (hrecent l hl) hfeed) (by decide)
  · exact absurd hfeed (by decide)

/-! ### Sessions -/

namespace Manager

variable {m m' : Manager} {started : StartedTurn} {provider : Option String}

/-- The last lines of a service in the log, as many as a first prompt shows. -/
def recentLines (service : String) (m : Manager) : List Log.Line :=
  (m.history.lines.filter fun l => l.service == service).rtake m.promptLines

theorem recentLines_eq (h : m'.background = m.background) (service : String) :
    m'.recentLines service = m.recentLines service := by
  obtain ⟨hlog, hlimit⟩ := Prod.mk.inj h
  rw [recentLines, hlog, hlimit, recentLines]

/-- The turn that a start launches asks about the recent lines of its service. -/
theorem completeStart_prompt {st : Startup} (h : m.completeStart st = (.ok started, m')) :
    ∃ t : Turn, m'.turns = m.turns ++ [t] ∧ t.session = started.sessionId ∧ t.requestId = started.requestId ∧
      t.prompt = initialPrompt st.service (m.recentLines st.service) := by
  rcases completeStart_cases st m with ⟨e, he, -⟩ | ⟨x, -, started', m'', hok, hregister⟩
  · rw [h] at he
    exact absurd he nofun
  · obtain ⟨hstarted, rfl⟩ := Prod.mk.inj (h.symm.trans hok)
    obtain rfl := Except.ok.inj hstarted
    obtain ⟨rfl, rfl⟩ := Prod.mk.inj hregister
    refine ⟨_, rfl, rfl, rfl, ?_⟩
    rw [recentLines, ← Log.History.forService_some]
    rfl

theorem service_of_admitStart {st : Startup} (h : m.admitStart service provider = .ok st) : st.service = service := by
  unfold admitStart at h
  split at h
  · exact absurd h nofun
  · split at h
    · exact absurd h nofun
    · obtain rfl := Except.ok.inj h
      rfl

theorem background_advance (ms : Nat) (m : Manager) : (m.advance ms).background = m.background :=
  advance_keeps (P := fun m' => m'.background = m.background) (fun m' h => m'.poll_keeps.background.trans h)
    (fun _ _ h => h) ms rfl

/-- While a start waits for its engine nothing is logged by the sessions themselves. -/
theorem start_prompt (h : m.start service provider = (.ok started, m')) :
    ∃ t : Turn, m'.turns.getLast? = some t ∧ t.session = started.sessionId ∧ t.requestId = started.requestId ∧
      t.prompt = initialPrompt service (m.recentLines service) := by
  unfold start at h
  cases hstarted : m.admitStart service provider with
  | error e =>
    rw [hstarted] at h
    exact absurd (Prod.mk.inj h).1 nofun
  | ok st =>
    rw [hstarted] at h
    obtain ⟨t, hturns, hsession, hrequest, hprompt⟩ := completeStart_prompt h
    refine ⟨t, by rw [hturns, List.getLast?_concat], hsession, hrequest, ?_⟩
    rw [hprompt, service_of_admitStart hstarted, recentLines_eq (background_advance _ m)]

end Manager

/-- The first prompt about a service whose name is a single line, with lines that were read from single lines, has two
fences. Before the first stands how many lines come between them, and these are the given lines in their order, each as
its time in UTC, its level and its message; nothing is left behind the second. A session is started with such a prompt
about the last lines that the log has of its service, up to the limit, oldest first; they are those of the log when the
engine has come up, which is the log as it was at the start unless others change it meanwhile. -/
theorem log_stays_between_fences (service : String) (hservice : '\n' ∉ service.toList) :
    (∀ recent : List Log.Line, recent ≠ [] → (∀ l ∈ recent, l.IsRead) →
      ∃ before between : List (List Char),
        splitLines (initialPrompt service recent).toList = (before ++ fenceLine :: (between ++ [fenceLine]), []) ∧
        fenceLine ∉ before ∧ fenceLine ∉ between ∧
        before.getLast? = some (announcement between.length) ∧ between = recent.map entry ∧
        ∀ line ∈ between, ∀ c ∈ line, Log.isLineEnd c = false) ∧
    (∀ (m m' : Manager) (st : Startup) (started : StartedTurn), st.service = service →
      m.completeStart st = (.ok started, m') →
        ∃ t : Turn, m'.turns = m.turns ++ [t] ∧ t.session = started.sessionId ∧ t.requestId = started.requestId ∧
          t.prompt = initialPrompt service
            ((m.history.lines.filter fun l => l.service == service).rtake m.promptLines)) ∧
    ∀ (m m' : Manager) (provider : Option String) (started : StartedTurn),
      m.start service provider = (.ok started, m') →
        ∃ t : Turn, m'.turns.getLast? = some t ∧ t.session = started.sessionId ∧ t.requestId = started.requestId ∧
          t.prompt = initialPrompt service
            ((m.history.lines.filter fun l => l.service == service).rtake m.promptLines) := by
  refine ⟨fun recent hne hrecent => ?_, ?_, fun m m' provider started h => Manager.start_prompt h⟩
  · refine ⟨preamble service recent.length, recent.map entry, splitLines_initialPrompt hservice hne hrecent,
      fenceLine_not_mem_preamble service _, fenceLine_not_mem_entries recent, ?_, rfl, fun line hline c hc => ?_⟩
    · rw [List.length_map]
      rfl
    · obtain ⟨l, hl, rfl⟩ := List.mem_map.mp hline
      exact isLineEnd_of_mem_entry (hrecent l hl) hc
  · rintro m m' st started rfl h
    exact Manager.completeStart_prompt h

/-- A log that writes a fence of its own does not close the block. -/
theorem written_fence_stays_inside :
    let raws := ["```", "level=error time=2024-05-01T10:20:30Z msg=\"```\""]
    let recent := raws.map (Log.parseLine ⟨0, 0⟩ "api")
    '\n' ∉ "api".toList ∧ recent ≠ [] ∧ (∀ l ∈ recent, l.IsRead) ∧
      ∃ before between : List (List Char),
        splitLines (initialPrompt "api" recent).toList = (before ++ fenceLine :: (between ++ [fenceLine]), []) ∧
        fenceLine ∉ before ∧ fenceLine ∉ between ∧ before.getLast? = some "Recent log output (2 lines):".toList ∧
        between = ["00:00:00 [INFO] ```".toList, "10:20:30 [ERROR] ```".toList] := by
  intro raws recent
  have hservice : '\n' ∉ "api".toList := by decide
  have hraws : ∀ raw ∈ raws, '\n' ∉ raw.toList := by
    intro raw hraw
    rcases List.mem_pair.mp hraw with rfl | rfl <;> decide
  have hrecent : ∀ l ∈ recent, l.IsRead := by
    intro l hl
    obtain ⟨raw, hraw, rfl⟩ := List.mem_map.mp hl
    exact ⟨_, _, raw, hraws raw hraw, rfl⟩
  have hne : recent ≠ [] := by simp [recent, raws]
  obtain ⟨before, between, hlines, hbefore, hbetween, hcount, hentries, -⟩ :=
    (log_stays_between_fences "api" hservice).1 recent hne hrecent
  have hshown : recent.map entry = ["00:00:00 [INFO] ```".toList, "10:20:30 [ERROR] ```".toList] := by decide +kernel
  refine ⟨hservice, hne, hrecent, before, between, hlines, hbefore, hbetween, ?_, hentries.trans hshown⟩
  rw [hcount, hentries, hshown]
  rfl

end Diagnosis

end StackDeck
