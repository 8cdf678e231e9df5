import Drnt.Audit.Faults

/-! Runs of the audit log writer on files that may fail: where every event is spared, the log is
whole in every state. -/
namespace Drnt.Audit.Faults

open Lib
open Loads (Loaded fits_of_loaded)

section Runs

/-- What happens to the service, and how the operations end that it makes. -/
inductive Label
  | event (data : Json) (now : UtcTime) (eventId : Uuid7) (fates : List Fate)
  | flush (fates : List Fate)
  | stop (fates : List Fate)
  | crash
  | start (today later begun : Day)

variable (host : Host)

inductive Step : System → Label → System → Prop
  | answer {s w data now eventId fates response m} (up : s.writer = some w)
      (loaded : Loaded host.toPython host.maxDepth data)
      (handled : handleEvent host data now eventId ⟨⟨s.disk, w⟩, fates⟩ = .ok response m) :
      Step s (.event data now eventId fates)
        (running m.service now.date (s.acked ++ acknowledged data response))
  | raise {s w data now eventId fates fault m} (up : s.writer = some w)
      (loaded : Loaded host.toPython host.maxDepth data)
      (handled : handleEvent host data now eventId ⟨⟨s.disk, w⟩, fates⟩ = .error fault m) :
      Step s (.event data now eventId fates) (running m.service now.date s.acked)
  | flush {s w fates m} (up : s.writer = some w)
      (flushed : flushBestEffort ⟨⟨s.disk, w⟩, fates⟩ = .ok () m) :
      Step s (.flush fates) (running m.service s.clock s.acked)
  -- what the periodic flush raises ends the service, and lines of the buffer may be lost
  | die {s w fates fault m acked} (up : s.writer = some w) (lost : List.Sublist acked s.acked)
      (raised : flushBestEffort ⟨⟨s.disk, w⟩, fates⟩ = .error fault m) :
      Step s (.flush fates) ⟨m.service.disk, none, s.clock, acked⟩
  | stop {s w fates m} (up : s.writer = some w)
      (flushed : flushBestEffort ⟨⟨s.disk, w⟩, fates⟩ = .ok () m) :
      Step s (.stop fates) ⟨m.service.disk, none, s.clock, s.acked⟩
  | abort {s w fates fault m acked} (up : s.writer = some w) (lost : List.Sublist acked s.acked)
      (raised : flushBestEffort ⟨⟨s.disk, w⟩, fates⟩ = .error fault m) :
      Step s (.stop fates) ⟨m.service.disk, none, s.clock, acked⟩
  | crash {s w} (up : s.writer = some w) : Step s .crash
      ⟨s.disk, none, s.clock, s.acked.take (s.acked.length - w.beBuffer.length)⟩
  | start {s w today later begun} (off : s.writer = none)
      (made : initialize_ host s.disk today later begun = .ok w) :
      Step s (.start today later begun) ⟨s.disk, some w, begun, s.acked⟩

/-- The event is spared, no operation of a flush fails, and the clock shows no earlier day than
before. -/
def Met (s : System) : Label → Prop
  | .event data now _ fates =>
      s.clock ≤ now.date ∧ ∀ w, s.writer = some w → Spared host ⟨s.disk, w⟩ data now fates
  | .flush fates | .stop fates =>
      ∀ w, s.writer = some w → Quiet (flushes w.beBuffer.length) fates
  | .crash => True
  | .start today later begun => s.clock ≤ today ∧ today ≤ later ∧ later ≤ begun

/-- The states of a log that starts without files, by steps that are `allowed`. -/
inductive Reached (allowed : System → Label → Prop) : System → Prop
  | first (clock : Day) : Reached allowed ⟨emptyDisk, none, clock, []⟩
  | next {s l s'} (before : Reached allowed s) (met : allowed s l) (step : Step host s l s') :
      Reached allowed s'

/-- The verifier finds the files, with the buffer written out, to be a chain, and its lines are
those of the acknowledged events in order, each once. -/
def Consistent (s : System) : Prop := ∀ w, s.writer = some w →
  let whole := flushed s.disk w.beBuffer
  ((verifyPath host.toPython whole).status = .valid ∨
    (verifyPath host.toPython whole).status = .empty) ∧
  (readRecords host.toPython whole.logs).map (·.raw) = s.acked.map fun a => encoded a.line

variable {host} {s s' : System} {pages : List Page} {current : Day} {texts : List PyStr} {data : Json}
  {now : UtcTime} {eventId : Uuid7}

theorem tidy_of_tracks {d : Disk} {w : Writer}
    (tracks : Tracks host.toPython pages current texts ⟨d, w⟩) : Tidy w where
  plain y mem := Loads.encodable_of_clean (tracks.clean y mem)
  dated y mem := by
    rw [show w.beBuffer = _ from tracks.buffer] at mem
    obtain ⟨t, -, rfl⟩ := List.mem_map.mp mem
    exact tracks.date.symm

/-- The fields of a message that has been read. -/
theorem fields_of_loaded (loaded : Loaded host.toPython host.maxDepth data)
    (object : ∃ fields, data = .obj fields) (printable : Printable data) :
    ∃ n, host.maxDepth = n + 1 ∧ ∀ name ∈ copied, Loads.Fits host.toPython n (field data name) := by
  obtain ⟨fields, rfl⟩ := object
  cases depth : host.maxDepth with
  | zero =>
    rw [depth] at loaded
    cases loaded
  | succ n =>
    rw [depth] at loaded
    cases loaded with
    | obj distinct values =>
      refine ⟨n, rfl, fun name mem => fits_of_loaded ?_ (printable name mem)⟩
      cases found : Json.field? (Lib.py name) fields with
      | none =>
        have null : field (.obj fields) name = .null := by simp [field, Json.get?, found]
        rw [null]
        exact .null
      | some v =>
        have here : field (.obj fields) name = v := by simp [field, Json.get?, found]
        rw [here]
        exact values (_, v) (mem_of_field? found)

/-- An event that is accepted adds its line to the log. -/
theorem logged_accepted (digests : HexDigests host.toPython) {w : Writer} {acked : List Acked}
    (tracks : Tracks host.toPython pages current texts ⟨s.disk, w⟩) (order : current ≤ now.date)
    (lines : allTexts pages ++ texts = acked.map Acked.line)
    (loaded : Loaded host.toPython host.maxDepth data) (valid : validateEvent host data = .ok none)
    (printable : Printable data) :
    ∃ pages', Logged host (running (accepted host ⟨s.disk, w⟩ data now eventId) now.date
      (acked ++ [⟨data, eventId, now.isoformat, w.prevHash⟩])) pages' := by
  obtain ⟨n, depth, values⟩ := fields_of_loaded loaded (valid_facts valid).1 printable
  have fits := @committed_fits host data w.prevHash eventId now.isoformat n values
    (tracks.digest digests)
  rw [← depth] at fits
  obtain ⟨sound, names, source⟩ := line_of_fits valid fits
  obtain ⟨pages', texts', tracks', more, -⟩ := tracks.accept_line order sound names source
  exact ⟨pages', tracks'.logged (day_le_refl _) (by rw [more, lines]; simp; rfl)⟩

theorem logged_resting {w : Writer} {acked : List Acked}
    (tracks : Tracks host.toPython pages current texts ⟨s.disk, w⟩) (order : current ≤ now.date)
    (lines : allTexts pages ++ texts = acked.map Acked.line) :
    ∃ pages', Logged host (running (resting ⟨s.disk, w⟩ now) now.date acked) pages' := by
  unfold resting
  split
  · obtain ⟨pages', texts', turn, -, same⟩ := tracks.turn order
    exact ⟨pages', turn.logged (day_le_refl _) (same.trans lines)⟩
  · exact ⟨pages, tracks.logged order lines⟩

/-- A flush whose operations are done. -/
theorem flush_quiet {d : Disk} {w : Writer} {fates : List Fate} (tidy : Tidy w)
    (quiet : Quiet (flushes w.beBuffer.length) fates) : flushBestEffort ⟨⟨d, w⟩, fates⟩ =
      .ok () ⟨⟨flushed d w.beBuffer, { w with beBuffer := [] }⟩, fates.drop (flushes w.beBuffer.length)⟩ := by
  cases buffer : w.beBuffer with
  | nil =>
    have same : { w with beBuffer := [] } = w := by rw [← buffer]
    rw [flush_nothing buffer, same]
    rfl
  | cons x lines =>
    have whole := flush_writes (m := ⟨⟨d, w⟩, fates⟩) buffer tidy.plain
    rw [whole.ok trivial quiet, buffer]

theorem logged_step (digests : HexDigests host.toPython) (log : Logged host s pages) {l : Label}
    (met : Met host s l) (step : Step host s l s') : ∃ pages', Logged host s' pages' := by
  cases step with
  | @answer w data now eventId fates response m up loaded ran =>
    obtain ⟨current, texts, earlier, tracks, lines⟩ := log.tracks w up
    have turn := Nat.le_trans earlier met.1
    have ways := handled host data (m := ⟨⟨s.disk, w⟩, fates⟩) (tidy_of_tracks tracks)
      (tracks.digest digests) now eventId
    rw [ran] at ways
    cases ways with
    | accepted valid fresh printable quiet =>
      exact logged_accepted digests tracks turn lines loaded valid printable
    | refused invalid => exact ⟨pages, tracks.logged turn (by simpa [acknowledged] using lines)⟩
    | known seen => exact ⟨pages, tracks.logged turn (by simpa [acknowledged] using lines)⟩
  | @raise w data now eventId fates fault m up loaded ran =>
    obtain ⟨current, texts, earlier, tracks, lines⟩ := log.tracks w up
    have turn := Nat.le_trans earlier met.1
    have ways := handled host data (m := ⟨⟨s.disk, w⟩, fates⟩) (tidy_of_tracks tracks)
      (tracks.digest digests) now eventId
    rw [ran] at ways
    cases ways with
    | thrown raised => exact ⟨pages, tracks.logged turn lines⟩
    | failed valid fresh broken same rests =>
      rcases met.2 w up with invalid | seen | whole | traceless
      · exact absurd valid invalid
      · exact absurd seen fresh
      · exact absurd whole broken
      · rw [rests traceless]
        exact logged_resting tracks turn lines
  | @flush w fates m up ran =>
    obtain ⟨current, texts, earlier, tracks, lines⟩ := log.tracks w up
    rw [flush_quiet (tidy_of_tracks tracks) (met w up)] at ran
    cases ran
    refine ⟨_, tracks.flush.logged earlier ?_⟩
    rw [allTexts_addAll, List.append_nil, lines]
  | @die w fates fault m acked up lost ran | @abort w fates fault m acked up lost ran =>
    obtain ⟨current, texts, earlier, tracks, lines⟩ := log.tracks w up
    rw [flush_quiet (tidy_of_tracks tracks) (met w up)] at ran
    cases ran
  | @stop w fates m up ran =>
    obtain ⟨current, texts, earlier, tracks, lines⟩ := log.tracks w up
    rw [flush_quiet (tidy_of_tracks tracks) (met w up)] at ran
    cases ran
    exact Audit.logged_step digests log (.stop up (flush_run tracks.clean))
  | crash up => exact Audit.logged_step digests log (.crash up)
  | start off made => exact Audit.logged_step digests log (.start off met made)

theorem logged_reached (digests : HexDigests host.toPython) (h : Reached host (Met host) s) :
    ∃ pages, Logged host s pages := by
  induction h with
  | first clock => exact Audit.logged_reached digests (.first clock)
  | next before met step ih =>
    obtain ⟨pages, log⟩ := ih
    exact logged_step digests log met step

/-- In a run of spared events and flushes that do not fail, by a clock that does not go back, an
event is handled as a whole or not at all just if it is spared too, and one that is new, printable
and not disturbed is accepted, written once and chained. -/
theorem events_atomic (digests : HexDigests host.toPython) (run : Reached host (Met host) s)
    {w : Writer} (up : s.writer = some w) (loaded : Loaded host.toPython host.maxDepth data)
    (eventId : Uuid7) (fates : List Fate) :
    Consistent host s ∧
    (Atomic ⟨s.disk, w⟩ (handleEvent host data now eventId ⟨⟨s.disk, w⟩, fates⟩) ↔
      Spared host ⟨s.disk, w⟩ data now fates) ∧
    (validateEvent host data = .ok none → field data "source_event_id" ∉ w.seenSourceIds →
      Printable data → Quiet (operations ⟨s.disk, w⟩ data now) fates → s.clock ≤ now.date →
      ∃ m, handleEvent host data now eventId ⟨⟨s.disk, w⟩, fates⟩ =
          .ok (.ack eventId now.isoformat w.prevHash (w.sequence + 1)) m ∧
        Consistent host (running m.service now.date
          (s.acked ++ [⟨data, eventId, now.isoformat, w.prevHash⟩]))) := by
  obtain ⟨pages, log⟩ := logged_reached digests run
  obtain ⟨current, texts, earlier, tracks, lines⟩ := log.tracks w up
  have consistent {s : System} {pages : List Page} (log : Logged host s pages) : Consistent host s :=
    fun w up => ⟨(log.agrees up).1, (log.agrees up).2.1⟩
  refine ⟨consistent log, atomic_iff_spared (m := ⟨⟨s.disk, w⟩, fates⟩) (tidy_of_tracks tracks)
    (tracks.digest digests) now eventId, fun valid fresh printable quiet order => ?_⟩
  have ways := handled host data (m := ⟨⟨s.disk, w⟩, fates⟩) (tidy_of_tracks tracks)
    (tracks.digest digests) now eventId
  generalize handleEvent host data now eventId ⟨⟨s.disk, w⟩, fates⟩ = r at ways ⊢
  cases ways with
  | accepted =>
    have after : ∃ pages', Logged host (running (accepted host ⟨s.disk, w⟩ data now eventId) _ _) pages' :=
      logged_accepted digests tracks (Nat.le_trans earlier order) lines loaded valid printable
    obtain ⟨pages', log'⟩ := after
    exact ⟨_, rfl, consistent log'⟩
  | refused invalid =>
    rw [valid] at invalid
    cases invalid
  | known seen => exact absurd seen fresh
  | thrown raised =>
    rw [valid] at raised
    cases raised
  | failed _ _ broken => exact absurd ⟨printable, quiet⟩ broken

end Runs

section Samples

/-- A writer that has just started on an empty disk. -/
def begun : Writer := started sampleHost.toPython [] (sampleTime 0).date (sampleTime 0).date
  (sampleTime 0).date

theorem reached_begun {allowed : System → Label → Prop}
    (met : allowed ⟨emptyDisk, none, (sampleTime 0).date, []⟩
      (.start (sampleTime 0).date (sampleTime 0).date (sampleTime 0).date)) :
    Reached sampleHost allowed ⟨emptyDisk, some begun, (sampleTime 0).date, []⟩ := by
  have empty : emptyDisk.Holds [] := rfl
  have made : initialize_ sampleHost emptyDisk (sampleTime 0).date (sampleTime 0).date
      (sampleTime 0).date = .ok begun := initialize_pages empty ⟨.nil, nofun, nofun⟩ ..
  exact .next (.first (sampleTime 0).date) met (.start rfl made)

theorem events_atomic_witness : ∃ m, handleEvent sampleHost (sampleEvent 1 0) (sampleTime 0)
    (sampleId 2) ⟨⟨emptyDisk, begun⟩, [.done, .done, .done, .fails 0]⟩ =
      .ok (.ack (sampleId 2) (sampleTime 0).isoformat (genesisHash sampleHost.toPython) 1) m ∧
    Consistent sampleHost (running m.service (sampleTime 0).date
      [⟨sampleEvent 1 0, sampleId 2, (sampleTime 0).isoformat, genesisHash sampleHost.toPython⟩]) :=
  (events_atomic sample_digests
    (reached_begun ⟨day_le_refl _, day_le_refl _, day_le_refl _⟩) rfl
    (Loads.loaded_of_fits (sample_inbound 1 0)) (sampleId 2)
    [.done, .done, .done, .fails 0]).2.2 sample_valid (by decide) (by decide +kernel) (by decide)
    (day_le_refl _)

/-- A best-effort event with a text that is an unpaired surrogate. -/
def poisoned : Json :=
  match sampleEvent 1 0 with
  | .obj fields => .obj (fields.map fun f =>
      if f.1 = Lib.py "durability" then (f.1, .text "best_effort")
      else if f.1 = Lib.py "payload" then (f.1, .obj [(Lib.py "text", .str [0xD800])])
      else f)
  | v => v

theorem poisoned_loaded : Loaded sampleHost.toPython sampleHost.maxDepth poisoned := by
  have loaded : Loaded sampleHost.toPython (999 + 1) (.obj _) := Loads.loaded_of_fits (sample_inbound 1 0)
  cases loaded with
  | obj distinct values =>
    refine .obj (n := 999) (by decide +kernel) fun g here => ?_
    obtain ⟨f, mem, rfl⟩ := List.mem_map.mp here
    split
    · exact .str _
    split
    · exact .obj (n := 998) (by simp) (by simp [Loaded.str])
    · exact values f mem

/-- A result that is an exception and leaves a state like that. -/
def raises (p : Machine → Bool) : EStateM.Result Thrown Machine Response → Bool
  | .error _ m => p m
  | .ok _ _ => false

theorem raises_iff {p : Machine → Bool} {r : EStateM.Result Thrown Machine Response} :
    raises p r = true ↔ ∃ fault m, r = .error fault m ∧ p m = true := by
  cases r with
  | ok => simp [raises]
  | error => simp [raises]

/-- A line is left in the buffer, and the next event fails. -/
def jammed (m : Machine) : Bool :=
  m.service.writer.beBuffer.length = 1 && raises (fun _ => true)
    (handleEvent sampleHost (sampleEvent 3 0) (sampleTime 0) (sampleId 4) ⟨m.service, []⟩)

/-- The event fails and stays in the buffer, which no later event can get past. -/
theorem surrogate_poisons : ∃ s w fault m fault' m', Reached sampleHost (Met sampleHost) s ∧
    s.writer = some w ∧ Loaded sampleHost.toPython sampleHost.maxDepth poisoned ∧
    s.clock ≤ (sampleTime 0).date ∧
    handleEvent sampleHost poisoned (sampleTime 0) (sampleId 2) ⟨⟨s.disk, w⟩, []⟩ = .error fault m ∧
    ¬ Same ⟨s.disk, w⟩ m.service ∧
    validateEvent sampleHost (sampleEvent 3 0) = .ok none ∧
    handleEvent sampleHost (sampleEvent 3 0) (sampleTime 0) (sampleId 4) ⟨m.service, []⟩ =
      .error fault' m' := by
  have jams : raises jammed (handleEvent sampleHost poisoned (sampleTime 0) (sampleId 2)
      ⟨⟨emptyDisk, begun⟩, []⟩) = true := by decide +kernel
  obtain ⟨fault, m, first, later⟩ := raises_iff.mp jams
  rw [jammed, Bool.and_eq_true, decide_eq_true_eq] at later
  obtain ⟨fault', m', second, -⟩ := raises_iff.mp later.2
  refine ⟨_, _, fault, m, fault', m',
    reached_begun ⟨day_le_refl _, day_le_refl _, day_le_refl _⟩, rfl, poisoned_loaded, day_le_refl _, first, fun same => ?_, by decide +kernel, second⟩
  have grown := later.1
  rw [same.buffer] at grown
  cases grown

end Samples

end Drnt.Audit.Faults
