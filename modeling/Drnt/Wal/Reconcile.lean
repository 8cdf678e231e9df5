import Drnt.Wal.Trial
import Drnt.Lib.Trace

/-! What a reconcile without interference does. -/
namespace Drnt.Wal

open Lib Lib.Coop

section Calls

/-- The events that are sent to the log writer, in order. -/
def emitted (calls : List sig.Call) : List Event :=
  calls.filterMap fun
    | ⟨.deliver e, _⟩ => some e
    | _ => none

def modelInfos (calls : List sig.Call) : List (Option PyStr × Option PyStr) :=
  calls.filterMap fun
    | ⟨.ollamaModelInfo, info⟩ => some info
    | _ => none

def isAcknowledged : sig.Call → Bool
  | ⟨.deliver _, .accepted⟩ => true
  | ⟨.deliver _, .rejected⟩ | ⟨.deliver _, .lost⟩ => false
  | ⟨.acknowledge _, answer⟩ => answer
  | ⟨.ollamaModelInfo, _⟩ | ⟨.uuid7, _⟩ => true

/-- Every emit is acknowledged. -/
def Acknowledged (calls : List sig.Call) : Prop := ∀ c ∈ calls, isAcknowledged c = true

/-- What neither an emit nor a change of an entry touches. -/
structure Frame (s s' : World) : Prop where
  metadata : s'.state.metadata = s.state.metadata
  registry : s'.registry = s.registry
  configHash : s'.configHash = s.configHash

theorem Frame.refl (s : World) : Frame s s := ⟨rfl, rfl, rfl⟩

theorem Frame.trans {s s₁ s₂ : World} (h : Frame s s₁) (h' : Frame s₁ s₂) : Frame s s₂ :=
  ⟨h'.metadata.trans h.metadata, h'.registry.trans h.registry, h'.configHash.trans h.configHash⟩

theorem Frame.edit (s : World) (cap : PyStr) (f : Entry → Entry) : Frame s (s.edit cap f) :=
  ⟨rfl, rfl, rfl⟩

theorem emitted_append (c₁ c₂ : List sig.Call) : emitted (c₁ ++ c₂) = emitted c₁ ++ emitted c₂ :=
  List.filterMap_append

theorem modelInfos_append (c₁ c₂ : List sig.Call) :
    modelInfos (c₁ ++ c₂) = modelInfos c₁ ++ modelInfos c₂ := List.filterMap_append

theorem acknowledged_append {c₁ c₂ : List sig.Call} :
    Acknowledged (c₁ ++ c₂) ↔ Acknowledged c₁ ∧ Acknowledged c₂ := List.forall_mem_append

variable {s s' : World} {calls : List sig.Call} {body : Body} {cap : PyStr} {e : Entry} {β : Type}
  {r : Except Error β}

/-- An emit sends its one event; when it raises, something has not been acknowledged. -/
theorem emit_trace {r : Except Error PyStr} (run : (emit body).Trace s calls r s') :
    ∃ id, emitted calls = [⟨id, body⟩] ∧ modelInfos calls = [] ∧ Frame s s' ∧
      s'.state.entries = s.state.entries ∧ (Acknowledged calls → r = .ok id) := by
  obtain ⟨id, rest, rfl, run⟩ := run
  obtain ⟨delivery, rest, rfl, run⟩ := run
  refine ⟨id, ?_⟩
  cases delivery with
  | accepted =>
    obtain ⟨acknowledged, rest, rfl, run⟩ := run
    cases acknowledged with
    | true =>
      obtain ⟨rfl, rfl, rfl⟩ := run
      exact ⟨rfl, rfl, ⟨rfl, rfl, rfl⟩, rfl, fun _ => rfl⟩
    | false =>
      obtain ⟨rfl, rfl, rfl⟩ := run
      exact ⟨rfl, rfl, ⟨rfl, rfl, rfl⟩, rfl,
        fun acked => nomatch acked ⟨.acknowledge ⟨id, body⟩, false⟩ (by simp)⟩
  | rejected =>
    obtain ⟨rfl, rfl, rfl⟩ := run
    exact ⟨rfl, rfl, ⟨rfl, rfl, rfl⟩, rfl, fun _ => rfl⟩
  | lost =>
    obtain ⟨rfl, rfl, rfl⟩ := run
    exact ⟨rfl, rfl, ⟨rfl, rfl, rfl⟩, rfl,
      fun acked => nomatch acked ⟨.deliver ⟨id, body⟩, .lost⟩ (by simp)⟩

theorem emit_then_trace {k : PyStr → Prog β} (run : ((emit body).bind k).Trace s calls r s') :
    (∃ id i s₁ c₁ c₂, calls = c₁ ++ c₂ ∧ emitted c₁ = [⟨id, body⟩] ∧ modelInfos c₁ = [] ∧
      Frame s s₁ ∧ (∀ c, s₁.entryAt? c = s.entryAt? c) ∧ (k i).Trace s₁ c₂ r s') ∨
    (¬ Acknowledged calls ∧ ∃ error, r = .error error) := by
  rcases Co.trace_bind.mp run with ⟨i, s₁, c₁, c₂, rfl, sent, run⟩ | ⟨error, sent, rfl⟩
  · obtain ⟨id, events, infos, frame, entries, -⟩ := emit_trace sent
    exact .inl ⟨id, i, s₁, c₁, c₂, rfl, events, infos, frame,
      fun c => congrArg (Dict.get? · c) entries, run⟩
  · obtain ⟨id, -, -, -, -, acked⟩ := emit_trace sent
    exact .inr ⟨fun all => (nomatch acked all), error, rfl⟩

theorem entry_trace {k : Entry → Prog β} (at_ : s.entryAt? cap = some e) :
    ((entry cap).bind k).Trace s calls r s' ↔ (k e).Trace s calls r s' := by
  change ((orRaise _ (s.entryAt? cap)).bind k).Trace s calls r s' ↔ _
  rw [at_]
  rfl

theorem wal_trace {k : Int → Prog β} (at_ : s.entryAt? cap = some e) :
    ((getEffectiveWal cap).bind k).Trace s calls r s' ↔ (k e.effective).Trace s calls r s' := by
  change (((entry cap).bind fun e => .ret e.effective).bind k).Trace s calls r s' ↔ _
  rw [Co.bind_assoc]
  exact entry_trace at_

theorem edit_trace {f : Entry → Entry} {k : Unit → Prog β} (at_ : s.entryAt? cap = some e) :
    ((edit cap f).bind k).Trace s calls r s' ↔ (k ()).Trace (s.edit cap f) calls r s' := by
  change (((entry cap).bind fun _ => update (·.edit cap f)).bind k).Trace s calls r s' ↔ _
  rw [Co.bind_assoc]
  exact entry_trace at_

/-- A capability without an entry raises. -/
theorem missing_trace {k : Int → Prog β} (at_ : s.entryAt? cap = none) :
    ((getEffectiveWal cap).bind k).Trace s calls r s' ↔
      calls = [] ∧ r = .error (.unknownCapability cap) ∧ s' = s := by
  change (((entry cap).bind fun e => .ret e.effective).bind k).Trace s calls r s' ↔ _
  rw [Co.bind_assoc]
  change ((orRaise _ (s.entryAt? cap)).bind _).Trace s calls r s' ↔ _
  rw [at_]
  rfl

end Calls

section Entries

/-- What `reconcile` makes of an entry. -/
def Entry.reconciled (config : Capability) (e : Entry) : Entry :=
  if e.effective = config.desiredWalLevel then e
  else if e.effective < config.desiredWalLevel then
    if e.effective = -1 then (e.setLevel config.desiredWalLevel).activate
    else e.setLevel config.desiredWalLevel
  else (e.demote config.desiredWalLevel).withCounters .reset

variable {config : Capability} {e : Entry}

theorem status_reconciled (config : Capability) (e : Entry) :
    (e.reconciled config).status = .active := by
  have nonneg := config.desired_nonneg
  unfold Entry.reconciled
  split
  · rename_i same
    exact status_of_effective (by omega)
  split
  · split
    · rfl
    · rename_i working
      exact status_of_ne (e := e) working
  · exact status_demote_nonneg nonneg e

theorem effective_reconciled (config : Capability) (e : Entry) :
    (e.reconciled config).effective = config.desiredWalLevel := by
  rw [effective_active (status_reconciled config e)]
  have nonneg := config.desired_nonneg
  unfold Entry.reconciled
  split
  · rename_i same
    rw [← same, effective_active (status_of_effective (by omega))]
  split
  · split <;> rfl
  · exact (effective_active (status_demote_nonneg nonneg e)).symm.trans
      (Entry.effective_demote _ e)

end Entries

section Runs

variable {s s₁ s' : World} {calls c₁ c₂ : List sig.Call} {cap : PyStr} {config : Capability}
  {e : Entry} {n m : Nat} {caps rest : List (PyStr × Capability)}

/-- The level changes that a reconcile has to make. -/
def due (s : World) (caps : List (PyStr × Capability)) : List (PyStr × Int × Int) :=
  caps.filterMap fun c =>
    (s.level? c.1).bind fun l =>
      if l = c.2.desiredWalLevel then none else some (c.1, l, c.2.desiredWalLevel)

/-- What becomes of the entry of `c`. -/
def brought (caps : List (PyStr × Capability)) (c : PyStr) (e : Entry) : Entry :=
  (lookup c caps).elim e fun config => e.reconciled config

theorem brought_self : brought ((cap, config) :: rest) cap = Entry.reconciled config := by
  funext e
  rw [brought, lookup, if_pos rfl]
  rfl

theorem brought_ne {c : PyStr} (h : c ≠ cap) :
    brought ((cap, config) :: rest) c = brought rest c := by
  funext e
  rw [brought, lookup, if_neg h.symm, brought]

theorem brought_absent {c : PyStr} (h : c ∉ caps.map Prod.fst) : brought caps c = id := by
  funext e
  rw [brought, lookup_eq_none.mpr h]
  rfl

theorem brought_other {c : PyStr} (h : c ≠ cap) (o : Option Entry) :
    o.map (brought [(cap, config)] c) = o := by
  rw [brought_ne h, brought_absent (c := c) List.not_mem_nil, Option.map_id_fun]
  rfl

/-- What a reconcile of some capabilities has done. -/
structure Brought (caps : List (PyStr × Capability)) (s : World) (calls : List sig.Call) (n : Nat)
    (s' : World) : Prop where
  frame : Frame s s'
  entries : ∀ c, s'.entryAt? c = (s.entryAt? c).map (brought caps c)
  events : (emitted calls).map (·.body.change?) = (due s caps).map some
  count : n = (due s caps).length
  infos : modelInfos calls = []

theorem due_congr (h : ∀ c ∈ caps.map Prod.fst, s'.entryAt? c = s.entryAt? c) :
    due s' caps = due s caps := by
  refine List.filterMap_congr fun c mem => ?_
  rw [World.level?, h c.1 (List.mem_map_of_mem mem), World.level?]

theorem Brought.append (first : Brought [(cap, config)] s c₁ n s₁) (later : Brought rest s₁ c₂ m s')
    (fresh : cap ∉ rest.map Prod.fst) :
    Brought ((cap, config) :: rest) s (c₁ ++ c₂) (n + m) s' := by
  have same : due s₁ rest = due s rest := by
    refine due_congr fun c mem => ?_
    have ne : c ≠ cap := fun eq => fresh (eq ▸ mem)
    rw [first.entries, brought_other ne]
  have split_ : due s ((cap, config) :: rest) = due s [(cap, config)] ++ due s rest := by
    rw [due, ← List.singleton_append, List.filterMap_append]
    rfl
  constructor
  · exact first.frame.trans later.frame
  · intro c
    rw [later.entries, first.entries]
    by_cases same : c = cap
    · subst same
      rw [brought_absent fresh, brought_self, brought_self, Option.map_id_fun, id]
    · rw [brought_other same, brought_ne same]
  · rw [emitted_append, List.map_append, first.events, later.events, same, split_, List.map_append]
  · rw [first.count, later.count, same, split_, List.length_append]
  · rw [modelInfos_append, first.infos, later.infos]
    rfl

theorem due_same (at_ : s.entryAt? cap = some e) (same : config.desiredWalLevel = e.effective) :
    due s [(cap, config)] = [] := by
  simp [due, World.level?, at_, same]

theorem due_other (at_ : s.entryAt? cap = some e) (ne : ¬ config.desiredWalLevel = e.effective) :
    due s [(cap, config)] = [(cap, e.effective, config.desiredWalLevel)] := by
  simp [due, World.level?, at_, Ne.symm ne]

/-- One capability whose event has been sent. -/
theorem brought_one {body : Body} {id : PyStr}
    (at_ : s.entryAt? cap = some e) (ne : ¬ config.desiredWalLevel = e.effective)
    (told : body.change? = some (cap, e.effective, config.desiredWalLevel))
    (sent : emitted calls = [⟨id, body⟩]) (infos : modelInfos calls = []) (frame : Frame s s')
    (own : s'.entryAt? cap = some (e.reconciled config))
    (others : ∀ c, c ≠ cap → s'.entryAt? c = s.entryAt? c) :
    Brought [(cap, config)] s calls 1 s' := by
  constructor
  · exact frame
  · intro c
    by_cases here : c = cap
    · subst here
      rw [own, at_, brought_self, Option.map_some]
    · rw [others c here, brought_other here]
  · rw [sent, due_other at_ ne]
    exact congrArg (fun x => [x]) told
  · rw [due_other at_ ne]
    rfl
  · exact infos

theorem reconcileCapability_trace {r : Except Error Nat} (at_ : s.entryAt? cap = some e)
    (run : (reconcileCapability cap config).Trace s calls r s') :
    (Acknowledged calls → ∃ n, r = .ok n) ∧
      ∀ n, r = .ok n → Brought [(cap, config)] s calls n s' := by
  replace run := (wal_trace at_).mp run
  split at run
  · rename_i same
    obtain ⟨rfl, rfl, rfl⟩ := run
    refine ⟨fun _ => ⟨0, rfl⟩, fun n eq => ?_⟩
    cases eq
    refine ⟨.refl _, fun c => ?_, ?_, ?_, rfl⟩
    · by_cases here : c = cap
      · subst here
        rw [at_, brought_self, Option.map_some, Entry.reconciled, if_pos same.symm]
      · rw [brought_other here]
    · rw [due_same at_ same]
      rfl
    · rw [due_same at_ same]
      rfl
  rename_i ne
  split at run
  · rename_i up
    rcases emit_then_trace run with ⟨id, i, s₁, c₁, c₂, rfl, events, infos, frame, same, run⟩ |
      ⟨lost, error, rfl⟩
    case inr => exact ⟨fun all => absurd all lost, fun _ => nofun⟩
    have here : s₁.entryAt? cap = some e := (same cap).trans at_
    replace run := (edit_trace here).mp run
    have at₂ : (s₁.edit cap (·.setLevel config.desiredWalLevel)).entryAt? cap =
        some (e.setLevel config.desiredWalLevel) := by rw [entryAt?_edit_self, here]; rfl
    split at run
    · rename_i down
      obtain ⟨rfl, rfl, rfl⟩ := (edit_trace at₂).mp run
      refine ⟨fun _ => ⟨1, rfl⟩, fun n eq => ?_⟩
      cases eq
      rw [List.append_nil]
      refine brought_one at_ ne rfl events infos ((frame.trans (.edit ..)).trans (.edit ..)) ?_
        fun c other => ?_
      · rw [entryAt?_edit_self, at₂, Entry.reconciled, if_neg (Ne.symm ne), if_pos up, if_pos down]
        rfl
      · rw [entryAt?_edit_ne other, entryAt?_edit_ne other, same]
    · rename_i working
      obtain ⟨rfl, rfl, rfl⟩ := run
      refine ⟨fun _ => ⟨1, rfl⟩, fun n eq => ?_⟩
      cases eq
      rw [List.append_nil]
      refine brought_one at_ ne rfl events infos (frame.trans (.edit ..)) ?_ fun c other => ?_
      · rw [at₂, Entry.reconciled, if_neg (Ne.symm ne), if_pos up, if_neg working]
      · rw [entryAt?_edit_ne other, same]
  · rename_i up
    rcases emit_then_trace run with ⟨id, i, s₁, c₁, c₂, rfl, events, infos, frame, same, run⟩ |
      ⟨lost, error, rfl⟩
    case inr => exact ⟨fun all => absurd all lost, fun _ => nofun⟩
    have here : s₁.entryAt? cap = some e := (same cap).trans at_
    replace run := (edit_trace here).mp run
    have at₂ : (s₁.edit cap (·.demote config.desiredWalLevel)).entryAt? cap =
        some (e.demote config.desiredWalLevel) := by rw [entryAt?_edit_self, here]; rfl
    obtain ⟨rfl, rfl, rfl⟩ := (edit_trace at₂).mp run
    refine ⟨fun _ => ⟨1, rfl⟩, fun n eq => ?_⟩
    cases eq
    rw [List.append_nil]
    refine brought_one at_ ne rfl events infos ((frame.trans (.edit ..)).trans (.edit ..)) ?_
      fun c other => ?_
    · rw [entryAt?_edit_self, at₂, Entry.reconciled, if_neg (Ne.symm ne), if_neg up]
      rfl
    · rw [entryAt?_edit_ne other, entryAt?_edit_ne other, same]

theorem reconcile_trace {r : Except Error Nat} (distinct : (caps.map Prod.fst).Nodup)
    (known : ∀ c ∈ caps.map Prod.fst, s.entryAt? c ≠ none)
    (run : (reconcile caps).Trace s calls r s') :
    (Acknowledged calls → ∃ n, r = .ok n) ∧ ∀ n, r = .ok n → Brought caps s calls n s' := by
  induction caps generalizing s calls r s' with
  | nil =>
    obtain ⟨rfl, rfl, rfl⟩ := run
    refine ⟨fun _ => ⟨0, rfl⟩, fun n eq => ?_⟩
    cases eq
    exact ⟨.refl _, fun c => by rw [brought_absent (by simp), Option.map_id_fun]; rfl, rfl, rfl, rfl⟩
  | cons c rest ih =>
    obtain ⟨cap, config⟩ := c
    obtain ⟨fresh, distinct⟩ := List.nodup_cons.mp distinct
    obtain ⟨e, at_⟩ := Option.ne_none_iff_exists'.mp (known cap List.mem_cons_self)
    rcases Co.trace_bind.mp run with ⟨n, s₁, c₁, c₂, rfl, first, run⟩ | ⟨error, first, rfl⟩
    case inr =>
      obtain ⟨returned, -⟩ := reconcileCapability_trace at_ first
      refine ⟨fun acked => ?_, fun _ => nofun⟩
      obtain ⟨n, eq⟩ := returned acked
      cases eq
    have begun := (reconcileCapability_trace at_ first).2 n rfl
    have known₁ : ∀ c ∈ rest.map Prod.fst, s₁.entryAt? c ≠ none := by
      intro c mem
      have other : c ≠ cap := fun eq => fresh (eq ▸ mem)
      rw [begun.entries, brought_other other]
      exact known c (List.mem_cons_of_mem _ mem)
    rcases Co.trace_bind.mp run with ⟨m, s₂, c₃, c₄, rfl, later, rfl, rfl, rfl⟩ | ⟨error, later, rfl⟩
    case inr =>
      obtain ⟨returned, -⟩ := ih distinct known₁ later
      refine ⟨fun acked => ?_, fun _ => nofun⟩
      obtain ⟨m, eq⟩ := returned (acknowledged_append.mp acked).2
      cases eq
    have rest_ := (ih distinct known₁ later).2 m rfl
    refine ⟨fun _ => ⟨n + m, rfl⟩, fun k eq => ?_⟩
    cases eq
    rw [List.append_nil]
    exact begun.append rest_ fresh

end Runs

section Reconciling

/-- The levels that are not what they were. -/
def shifts (registry : Registry) (s s' : World) : List (PyStr × Int × Int) :=
  registry.entries.filterMap fun c =>
    match s.level? c.1, s'.level? c.1 with
    | some l, some l' => if l = l' then none else some (c.1, l, l')
    | _, _ => none

/-- A reconcile that brings every capability to its desired level and tells of each change, and
that leaves nothing to do. -/
structure Reconciles (registry : Registry) (s : World) (calls : List sig.Call)
    (r : Except Error Nat) (s' : World) : Prop where
  completes : ∃ n, r = .ok n
  settled : ∀ cap config, registry.get? cap = some config →
    ∃ e, s'.entryAt? cap = some e ∧ e.effective = config.desiredWalLevel ∧ e.status = .active
  events : (emitted calls).map (·.body.change?) = (shifts registry s s').map some
  again : ∀ calls' r' s'', (reconcile registry.entries).Trace s' calls' r' s'' →
    calls' = [] ∧ r' = .ok 0 ∧ s'' = s'

variable {registry : Registry} {s s' : World} {calls : List sig.Call}
  {caps : List (PyStr × Capability)}

/-- Where every capability is at its desired level, nothing happens. -/
theorem reconcile_settled {r : Except Error Nat} (settled : ∀ c ∈ caps,
    ∃ e, s.entryAt? c.1 = some e ∧ e.effective = c.2.desiredWalLevel)
    (run : (reconcile caps).Trace s calls r s') : calls = [] ∧ r = .ok 0 ∧ s' = s := by
  induction caps generalizing calls r s' with
  | nil => exact run
  | cons c rest ih =>
    obtain ⟨e, at_, level⟩ := settled c List.mem_cons_self
    have quiet {calls : List sig.Call} {r : Except Error Nat} {s' : World}
        (run : (reconcileCapability c.1 c.2).Trace s calls r s') : calls = [] ∧ r = .ok 0 ∧ s' = s := by
      replace run := (wal_trace at_).mp run
      rw [if_pos level.symm] at run
      exact run
    have later {calls : List sig.Call} {r : Except Error Nat} {s' : World}
        (run : (reconcile rest).Trace s calls r s') := ih (fun c mem => settled c (.tail _ mem)) run
    rcases Co.trace_bind.mp run with ⟨n, s₁, c₁, c₂, rfl, first, run⟩ | ⟨error, first, rfl⟩
    case inr => cases (quiet first).2.1
    obtain ⟨rfl, eq, rfl⟩ := quiet first
    cases eq
    rcases Co.trace_bind.mp run with ⟨m, s₂, c₃, c₄, rfl, last, rfl, rfl, rfl⟩ | ⟨error, last, rfl⟩
    case inr => cases (later last).2.1
    obtain ⟨rfl, eq, rfl⟩ := later last
    cases eq
    exact ⟨rfl, rfl, rfl⟩

theorem known_of_reconcile {n : Nat} (distinct : (caps.map Prod.fst).Nodup)
    (run : (reconcile caps).Trace s calls (.ok n) s') : ∀ c ∈ caps.map Prod.fst, s.entryAt? c ≠ none := by
  induction caps generalizing s calls n s' with
  | nil => nofun
  | cons c rest ih =>
    obtain ⟨fresh, distinct⟩ := List.nodup_cons.mp distinct
    obtain ⟨k, s₁, c₁, c₂, rfl, first, run⟩ := Co.Trace.split run
    obtain ⟨m, s₂, c₃, c₄, rfl, later, -⟩ := Co.Trace.split run
    have known : s.entryAt? c.1 ≠ none := fun missing => by cases ((missing_trace missing).mp first).2.1
    obtain ⟨e, at_⟩ := Option.ne_none_iff_exists'.mp known
    have begun := (reconcileCapability_trace at_ first).2 k rfl
    intro cap mem
    rcases List.mem_cons.mp mem with rfl | mem
    · exact known
    · have other : cap ≠ c.1 := fun eq => fresh (eq ▸ mem)
      have := ih distinct later cap mem
      rwa [begun.entries, brought_other other] at this

theorem Brought.settled {n : Nat} (brought_ : Brought registry.entries s calls n s')
    (known : ∀ cap ∈ registry.keys, s.entryAt? cap ≠ none) (cap : PyStr) (config : Capability)
    (at_ : registry.get? cap = some config) :
    ∃ e, s'.entryAt? cap = some e ∧ e.effective = config.desiredWalLevel ∧ e.status = .active := by
  have here : (cap, config) ∈ registry.entries := Dict.get?_eq_some_iff.mp at_
  obtain ⟨e, old⟩ := Option.ne_none_iff_exists'.mp (known cap (List.mem_map_of_mem here))
  have new : brought registry.entries cap e = e.reconciled config := by
    have found : lookup cap registry.entries = some config := at_
    rw [brought, found]
    rfl
  refine ⟨e.reconciled config, ?_, effective_reconciled config e, status_reconciled config e⟩
  rw [brought_.entries, old, Option.map_some, new]

/-- The level changes that were due are those that have taken place. -/
theorem Brought.shifts {n : Nat} (brought_ : Brought registry.entries s calls n s')
    (known : ∀ cap ∈ registry.keys, s.entryAt? cap ≠ none) :
    due s registry.entries = shifts registry s s' := by
  refine List.filterMap_congr fun c mem => ?_
  obtain ⟨e, at_⟩ := Option.ne_none_iff_exists'.mp (known c.1 (List.mem_map_of_mem mem))
  obtain ⟨e', at', level, -⟩ := brought_.settled known c.1 c.2 (Dict.get?_eq_some_iff.mpr mem)
  simp only [World.level?, at_, at', Option.map_some, Option.bind_some, level]

/-- A reconcile that does what it should has found every capability. -/
theorem known_of_reconciles (h : ∀ calls r s', (reconcile registry.entries).Trace s calls r s' →
    Acknowledged calls → Reconciles registry s calls r s') :
    ∀ cap ∈ registry.keys, s.entryAt? cap ≠ none := by
  have acked : Acknowledged ((reconcile registry.entries).exec Trial.usual s).1 := by
    intro c mem
    have answer := Co.exec_calls Trial.usual _ s c mem
    obtain ⟨q, a⟩ := c
    cases (show a = Trial.usual q from answer)
    cases q <;> rfl
  have run := Co.trace_exec Trial.usual (reconcile registry.entries) s
  obtain ⟨n, eq⟩ := (h _ _ _ run acked).completes
  rw [eq] at run
  exact known_of_reconcile registry.nodup run

theorem reconciles_iff (registry : Registry) (s : World) :
    (∀ calls r s', (reconcile registry.entries).Trace s calls r s' → Acknowledged calls →
      Reconciles registry s calls r s') ↔ ∀ cap ∈ registry.keys, s.entryAt? cap ≠ none := by
  refine ⟨known_of_reconciles, fun known calls r s' run acked => ?_⟩
  obtain ⟨returns, does⟩ := reconcile_trace registry.nodup known run
  obtain ⟨n, rfl⟩ := returns acked
  have done := does n rfl
  refine ⟨⟨n, rfl⟩, done.settled known, ?_, fun calls' r' s'' => reconcile_settled ?_⟩
  · rw [done.events, done.shifts known]
  · intro c mem
    obtain ⟨e, at_, level, -⟩ := done.settled known c.1 c.2 (Dict.get?_eq_some_iff.mpr mem)
    exact ⟨e, at_, level⟩

end Reconciling

section Addition

def before : Files := Trial.file "before" [("a", Trial.supervised)]

def added : ConfigFile :=
  ⟨py "after",
    (∅ : Registry).set (py "a") Trial.supervised |>.set (py "b") Trial.unsupervised⟩

/-- A capability that the configuration has gained since the last startup. -/
theorem added_unknown : ∃ calls hash model n s,
    (startup before).Trace {} calls (.ok (.succeeded hash model n)) s ∧
    ¬ ∀ calls r s', (reconcile added.capabilities.entries).Trace
      ((s.restart []).loadRegistry added) calls r s' → Acknowledged calls →
        Reconciles added.capabilities ((s.restart []).loadRegistry added) calls r s' := by
  have run := Co.trace_exec Trial.usual (startup before) {}
  have started : ((startup before).exec Trial.usual {}).2.1 =
      .ok (.succeeded (py "before") (some (py "llama")) 1) := by
    decide +kernel
  rw [started] at run
  refine ⟨_, _, _, _, _, run, fun h => ?_⟩
  exact known_of_reconciles h (py "b") (by decide +kernel) (by decide +kernel)

end Addition

end Drnt.Wal
