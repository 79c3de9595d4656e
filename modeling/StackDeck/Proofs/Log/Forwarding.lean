import Mathlib
import StackDeck.Proofs.Log.Traffic

/-!
What the tails forward: every line that can be read of what their commands write, once and in order, and nothing else. A line
that is not well-formed UTF-8 is the end of its stream for the task that reads it, and the lines behind it are never sent.
-/

namespace StackDeck.Log

open Shell

variable {service : String} {source : Source} {t : Tail}

/-- A line to be forwarded, and whether it is one of the error output. -/
def Source.tagged? (source : Source) (o : Observation) : Option (Bool × String) :=
  (source.forwarded? o).map fun raw => (o.isError, raw)

theorem map_tagged (source : Source) (os : List Observation) :
    (os.filterMap source.tagged?).map Prod.snd = os.filterMap source.forwarded? := by
  rw [List.map_filterMap]
  refine List.filterMap_congr fun o _ => ?_
  rw [Source.tagged?, Option.map_map]
  exact Option.map_id'

theorem filter_tagged (source : Source) (isError : Bool) (os : List Observation) :
    ((os.filterMap source.tagged?).filter fun r => r.1 == isError).map Prod.snd =
      (os.filter fun o => o.isError == isError).filterMap source.forwarded? := by
  rw [List.filter_filterMap, List.map_filterMap, List.filterMap_filter]
  refine List.filterMap_congr fun o _ => ?_
  rw [Source.tagged?]
  cases source.forwarded? o with
  | none => simp
  | some raw => by_cases h : o.isError = isError <;> simp [h]

namespace Traffic

/-- What a tail has sent are lines of its command, each sent once: of each stream some of those that are due, as the relation
says. -/
def Tells (R : List String → List String → Prop) (t : Tail) (w : Traffic) : Prop :=
  ∃ read : List (Bool × String), List.Forall₂ (fun r l => ∃ now, l = parseLine now t.service r.2) read (w.sentBy t.id) ∧
    ∀ isError, R ((read.filter fun r => r.1 == isError).map Prod.snd) ((w.feeds t.id).due t.source isError)

variable {w : Traffic} {id : Nat} {read rest : List Observation} {lost : List Line}

theorem carries_tagged {ls : List Line} (h : Carries service source read ls) :
    List.Forall₂ (fun r l => ∃ now, l = parseLine now service r.2) (read.filterMap source.tagged?) ls := by
  rw [Carries, ← map_tagged] at h
  exact List.forall₂_map_left_iff.mp h

/-- The lines of a stream among those read come first among those that are due. -/
theorem due_first {f : Feed} (hsound : f.Sound) (source : Source) (hread : read <+: f.seen) (isError : Bool) :
    ((read.filterMap source.tagged?).filter fun r => r.1 == isError).map Prod.snd <+: f.due source isError := by
  rw [filter_tagged, ← Feed.forwarded_observations, ← hsound isError]
  exact (hread.filter _).filterMap _

theorem tells_some (hsound : (w.feeds t.id).Sound)
    (h : t.Reads (w.feeds t.id) (w.sentBy t.id) w.pipeline.listening read rest lost) : w.Tells (· <+: ·) t := by
  have hread : read <+: (w.feeds t.id).seen := ⟨t.place.unread ++ rest, by rw [h.split, List.append_assoc]⟩
  have hcarries := List.forall₂_take (w.sentBy t.id).length (carries_tagged h.carries)
  rw [List.append_assoc, List.take_left] at hcarries
  refine ⟨_, hcarries, fun isError => ?_⟩
  exact (((List.take_prefix _ _).filter _).map _).trans (due_first hsound t.source hread isError)

/-- Where nothing is left over, everything was sent. -/
theorem tells_all (hsound : (w.feeds t.id).Sound)
    (h : t.Reads (w.feeds t.id) (w.sentBy t.id) w.pipeline.listening read [] []) (hunread : t.place.unread = [])
    (hheld : t.place.held = []) : w.Tells Eq t := by
  have hread : (w.feeds t.id).seen = read := by rw [h.split, hunread, List.append_nil, List.append_nil]
  have hcarries := carries_tagged h.carries
  rw [hheld, List.append_nil, List.append_nil] at hcarries
  refine ⟨_, hcarries, fun isError => ?_⟩
  rw [filter_tagged, ← Feed.forwarded_observations, ← hsound isError, hread]

end Traffic

/-- In whatever order commands write, tails come and go, and lines are taken: of what its command writes to each stream a tail
sends one parsed line for each line before the first that is not well-formed UTF-8, in their order, and nothing else; of the error
output it does so for a container only. That line and those behind it are lost. A tail that was told to stop sends the line it
holds at most. Any other that is heard has sent all there was to send whenever it pauses with room in the queue, and ends when
both of its streams have, or when its command does not start. A line is what ends with a line feed, whatever its octets. -/
theorem readable_lines_are_sent (runtime : String) (backlog capacity : Nat) (now : Instant) (ms : List Traffic.Move) :
    let w := (Traffic.start runtime backlog capacity now).run ms
    (w.pipeline.listening = true → w.received ++ w.pipeline.queue = w.sent.map Prod.snd) ∧
    (∀ (ls : List (List UInt8)) (ended : Bool), (∀ l ∈ ls, 10 ∉ l) →
      (⟨ls.flatMap (· ++ [10]), ended⟩ : Channel).lines = ls.map lineText?) ∧
    ∀ id t, w.pipeline.tail? id = some t →
      w.Tells (· <+: ·) t ∧
      (t.cancelled = true → ∀ ms', (w.run ms').sentBy id <+: w.sentBy id ++ t.place.held) ∧
      (t.cancelled = false → w.pipeline.listening = true →
        (t.isOver = true → w.Tells Eq t ∧
          ((w.feeds id).begun = false ∨ ∀ isError, ((w.feeds id).channel isError).isDone = true)) ∧
        ∀ host, (w.move (.poll id host)).pipeline.hasRoom = true → (w.move (.poll id host)).Tells Eq t) := by
  intro w
  obtain ⟨hserves, harrives⟩ : (∀ j, w.Serves j) ∧ w.Arrives :=
    Traffic.run_forwards (Traffic.start_forwards runtime backlog capacity now) ms
  refine ⟨harrives, fun ls ended h => Channel.lines_of_ended h ended, fun id t ht => ?_⟩
  obtain rfl := (Pipeline.tail?_id ht).2
  obtain ⟨read, rest, lost, hreads⟩ := (hserves t.id).reads t ht
  refine ⟨Traffic.tells_some (hserves t.id).sound hreads, fun hc ms' => ?_,
    fun hc hl => ⟨fun hover => ?_, fun host hroom => ?_⟩⟩
  · obtain ⟨u, -, -, hdue⟩ := Traffic.Winds.run ⟨hserves, harrives⟩ ⟨t, ht, hc, List.prefix_rfl⟩ ms'
    exact (List.prefix_append _ _).trans hdue
  · have hplace : t.place = .over := by
      unfold Tail.isOver at hover
      split at hover
      next h => exact h
      next => cases hover
    have hwhy : ¬(t.cancelled = true ∨ w.pipeline.listening = false) := by simp [hc, hl]
    obtain ⟨rfl, rfl⟩ := hreads.left.resolve_right fun h => hwhy h.2
    refine ⟨Traffic.tells_all (hserves t.id).sound hreads (by rw [hplace]; rfl) (by rw [hplace]; rfl), ?_⟩
    refine ((hreads.ends hplace).resolve_left hwhy).imp_right fun hclosed => ?_
    exact (hserves t.id).sound.done (hreads.split.trans (List.append_assoc _ _ _)) hclosed
  · obtain ⟨q, ls, hsteps, hsent, hsound, -⟩ := Traffic.poll_deals (hserves t.id) ht host
    obtain ⟨read, rest, lost, hreads⟩ := hsteps.reads
    obtain ⟨rfl, rfl⟩ := hreads.left.resolve_right fun h => by simp [hc, hl] at h
    obtain ⟨hunread, hheld⟩ := hsteps.room hroom
    have hsentBy : (w.move (.poll t.id host)).sentBy t.id = w.sentBy t.id ++ ls := by
      rw [Traffic.sentBy, hsent, Traffic.sentBy_append, if_pos rfl, Traffic.sentBy]
    rw [← hsentBy, ← hsteps.listening] at hreads
    exact Traffic.tells_all (t := { t with place := q }) hsound hreads hunread hheld

/-- Not every line is sent: a container writes one that is not well-formed UTF-8, and one that is. -/
theorem unreadable_line_silences_container : ¬ ∀ (runtime : String) (backlog capacity : Nat) (now : Instant)
    (ms : List Traffic.Move) (id : Nat) (t : Tail) (host : Host),
    let w := (Traffic.start runtime backlog capacity now).run ms
    let w' := w.move (.poll id host)
    w.pipeline.tail? id = some t → t.cancelled = false → w.pipeline.listening = true → w'.pipeline.hasRoom = true →
      (w'.sentBy id).length = ((w'.feeds id).channel false).lines.length +
        if t.source.forwardsErrors then ((w'.feeds id).channel true).lines.length else 0 := by
  intro hall
  let host : Host := { rules := [⟨["logs", "-f", "--tail", "100", "c1"], [0xFF, 10, 108, 97, 116, 101, 10], [], .code 0, false⟩] }
  let w' := ((Traffic.start "docker" 100 1024 ⟨0, 0⟩).run [.start "db" (.container "c1")]).move (.poll 1 host)
  have hsent : w'.sentBy 1 = [] := by cbv
  have hlines : ((w'.feeds 1).channel false).lines = [none, some "late"] := by cbv
  have herrors : ((w'.feeds 1).channel true).lines = [] := by cbv
  have heq := hall "docker" 100 1024 ⟨0, 0⟩ [.start "db" (.container "c1")] 1 _ host rfl rfl rfl (by cbv)
  dsimp only at heq
  rw [hsent, hlines, herrors] at heq
  exact absurd heq (by decide)

end StackDeck.Log
