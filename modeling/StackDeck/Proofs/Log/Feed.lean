import Mathlib.Logic.Function.Basic
import StackDeck.Log.Pipeline
import StackDeck.Proofs.Shell.Channel

/-!
What the task of a tail sees of its command: two streams, whose lines come to it in one order.
-/

namespace StackDeck.Log

open Shell

/-- What the task of a tail has seen of its command. -/
structure Feed where
  /-- The output, and the error output. -/
  channel : Bool → Channel := fun _ => {}
  /-- Everything seen of both, in the order in which it came. -/
  seen : List Observation := []
  /-- The command has started. -/
  begun : Bool := false

namespace Feed

/-- What a command shows when it starts. -/
def opening (o : Output) : Feed where
  channel isError := ⟨if isError then o.stderr else o.stdout, !o.hangs⟩
  seen := o.observations
  begun := true

/-- What there is to see when a stream has changed. -/
def news (isError : Bool) (c : Channel) (f : Feed) : List Observation :=
  (c.observations isError).drop ((f.channel isError).observations isError).length

/-- One of the streams has changed. -/
def hear (isError : Bool) (c : Channel) (f : Feed) : Feed :=
  { f with channel := Function.update f.channel isError c, seen := f.seen ++ f.news isError c }

/-- The lines of a stream that a source is to bring forward. -/
def due (source : Source) (isError : Bool) (f : Feed) : List String :=
  if isError && !source.forwardsErrors then [] else (f.channel isError).readable

end Feed

def Streams.isOpenAt (isError : Bool) (s : Streams) : Bool := if isError then s.err else s.out

namespace Feed

variable {f : Feed} {isError : Bool} {source : Source}

/-- What was seen of each stream is what there is to see of it. -/
def Sound (f : Feed) : Prop := ∀ isError, f.seen.filter (fun o => o.isError == isError) = (f.channel isError).observations isError

theorem sound_empty : ({} : Feed).Sound := fun _ => rfl

theorem filter_own {os : List Observation} (h : ∀ o ∈ os, o.isError = isError) (e : Bool) :
    os.filter (fun o => o.isError == e) = if e = isError then os else [] := by
  split
  next he =>
    subst he
    exact List.filter_eq_self.mpr fun o ho => by simpa using h o ho
  next he => exact List.filter_eq_nil_iff.mpr fun o ho => by simpa [h o ho] using Ne.symm he

theorem sound_opening (o : Output) : (opening o).Sound := by
  intro e
  have hout : ∀ x ∈ streamObservations false o.hangs (splitOctets o.stdout).1 (splitOctets o.stdout).2, x.isError = false :=
    fun _ => streamObservations_isError
  have herr : ∀ x ∈ streamObservations true o.hangs (splitOctets o.stderr).1 (splitOctets o.stderr).2, x.isError = true :=
    fun _ => streamObservations_isError
  rw [opening, Output.observations, List.filter_append, filter_own hout, filter_own herr]
  cases e <;> simp [Channel.observations]

theorem Sound.hear (h : f.Sound) {c : Channel}
    (hc : (f.channel isError).observations isError <+: c.observations isError) : (f.hear isError c).Sound := by
  intro e
  have hnews : ∀ o ∈ f.news isError c, o.isError = isError := fun o ho => streamObservations_isError (List.mem_of_mem_drop ho)
  rw [Feed.hear, List.filter_append, h e, filter_own hnews]
  dsimp only
  by_cases he : e = isError
  · subst he
    rw [if_pos rfl, Function.update_self]
    exact List.prefix_iff_eq_append.mp hc
  · rw [if_neg he, List.append_nil, Function.update_of_ne he]

/-- The lines that are brought forward of what is seen of a stream. -/
theorem forwarded_observations (source : Source) (isError : Bool) (f : Feed) :
    ((f.channel isError).observations isError).filterMap source.forwarded? = f.due source isError := by
  have hend : (if (f.channel isError).isDone then [Observation.closed isError] else []).filterMap source.forwarded? = [] := by
    split <;> rfl
  rw [Channel.observations_eq, List.filterMap_append, hend, List.append_nil, List.filterMap_map, due]
  split
  next h => exact List.filterMap_eq_nil_iff.mpr fun s _ => if_pos h
  next h =>
    have hsome : source.forwarded? ∘ Observation.line isError = some := funext fun s => if_neg h
    rw [hsome, List.filterMap_some]

/-- A stream that is seen to be closed was closed from the start or has been closed since. -/
theorem closed_of_foldl (isError : Bool) (read : List Observation) (s : Streams)
    (h : (read.foldl Streams.after s).isOpenAt isError = false) : s.isOpenAt isError = false ∨ .closed isError ∈ read := by
  induction read generalizing s with
  | nil => exact .inl h
  | cons o r ih =>
    rcases ih (s.after o) h with hs | hr
    · cases o with
      | line => exact .inl hs
      | closed e =>
        by_cases he : e = isError
        · exact .inr (he ▸ List.mem_cons_self)
        · refine .inl ?_
          cases e <;> cases isError <;> first | exact hs | exact absurd rfl he
    · exact .inr (List.mem_cons_of_mem o hr)

theorem closed_of_done {read : List Observation} (h : (read.foldl Streams.after {}).isOpen = false) :
    ∀ isError, .closed isError ∈ read
  | false => (closed_of_foldl false read {} (Bool.or_eq_false_iff.mp h).1).resolve_left nofun
  | true => (closed_of_foldl true read {} (Bool.or_eq_false_iff.mp h).2).resolve_left nofun

/-- Where both streams have ended nothing comes any more. -/
theorem Sound.nothing_after (h : f.Sound) {read rest : List Observation} (hsplit : f.seen = read ++ rest)
    (hclosed : (read.foldl Streams.after {}).isOpen = false) : rest = [] := by
  refine List.eq_nil_iff_forall_not_mem.mpr fun o ho => ?_
  have hstream := h o.isError
  rw [hsplit, List.filter_append] at hstream
  have hend : .closed o.isError ∈ read.filter fun u => u.isError == o.isError :=
    List.mem_filter.mpr ⟨closed_of_done hclosed o.isError, beq_self_eq_true _⟩
  have hnone := Channel.nothing_after_closed hstream.symm hend
  exact List.filter_eq_nil_iff.mp hnone o ho (beq_self_eq_true _)

/-- Where both streams were seen to end, each has ended or has a line that cannot be read. -/
theorem Sound.done (h : f.Sound) {read rest : List Observation} (hsplit : f.seen = read ++ rest)
    (hclosed : (read.foldl Streams.after {}).isOpen = false) (isError : Bool) : (f.channel isError).isDone = true := by
  have hseen : Observation.closed isError ∈ f.seen := hsplit ▸ List.mem_append_left rest (closed_of_done hclosed isError)
  refine Channel.done_of_closed (?_ : Observation.closed isError ∈ _)
  rw [← h isError]
  exact List.mem_filter.mpr ⟨hseen, beq_self_eq_true _⟩

end Feed

end StackDeck.Log
