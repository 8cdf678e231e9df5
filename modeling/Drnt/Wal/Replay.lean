import Drnt.Wal.Evidence

/-! Where every emit is acknowledged and nothing comes between, the audit log explains every
level. -/
namespace Drnt.Wal

open Lib Lib.Coop

section Logs

/-- A change, if it is one of the capability. -/
def ofCap (cap : PyStr) : Option (PyStr × Int × Int) → Option (Int × Int)
  | some (c, edge) => if c = cap then some edge else none
  | none => none

/-- The level change of a capability that an event tells of. -/
def Event.edge? (cap : PyStr) (ev : Event) : Option (Int × Int) := ofCap cap ev.body.change?

def edges (cap : PyStr) (log : List Event) : List (Int × Int) := log.filterMap (·.edge? cap)

/-- The levels just before and just after a change. -/
def Happening.edge? (cap : PyStr) : Happening → Option (Int × Int)
  | .entered c (some before) level _ => if c = cap then some (before, level) else none
  | _ => none

/-- The changes of level that have taken place, oldest first. -/
def changes (cap : PyStr) (history : List Happening) : List (Int × Int) :=
  (history.filterMap (·.edge? cap)).reverse

/-- The level that a log comes to. -/
def replay (edges : List (Int × Int)) : Int := edges.foldl (fun _ edge => edge.2) 0

/-- The log tells of the changes that have taken place, in order, and comes to the level. -/
def Explained (s : World) : Prop :=
  ∀ cap e, s.entryAt? cap = some e →
    edges cap s.log = changes cap s.history ∧ replay (edges cap s.log) = e.effective

end Logs

section Condition

/-- No call is under way. -/
def quiet (c : Run) : Bool := c.running.isNone && c.threads.all fun th => th.2.Finished

def answered : (q : Req) → Req.Ans q → Bool
  | .deliver _, .accepted => true
  | .deliver _, _ => false
  | .acknowledge _, a => a
  | .ollamaModelInfo, _ | .uuid7, _ => true

/-- An event announces a change of the capability. -/
def Event.announcesFor (cap : PyStr) (ev : Event) : Bool :=
  ev.body.announces && (ev.edge? cap).isSome

/-- An event about a capability with a change announced, or about none. -/
def apart (s : World) (ev : Event) : Bool :=
  match ev.body.change? with
  | some (cap, _) => s.inFlight.all fun ev' => !ev'.announcesFor cap
  | none => true

def Body.isOverride : Body → Bool
  | .jobOverridden .. => true
  | _ => false

/-- The events about the capability that are still ahead of an event. -/
def overtakes (s : World) (ev : Event) : Bool :=
  match ev.body.change? with
  | some (cap, _) => !(edges cap (s.unlogged.takeWhile fun ev' => ev' ≠ ev)).isEmpty
  | none => false

/-- The job manager sends no event of its own; while a change is announced, nothing else changes
the level of the capability or tells of it; and events about one capability are logged in the
order sent. -/
def traces (s : World) (_ : Tag) (s' : World) : Bool :=
  ((relevelled s s').all fun r => s.inFlight.all fun ev => !ev.announcesFor r.1) &&
  ((sent s s').all fun ev => !ev.body.isOverride && apart s ev) &&
  ((s'.log.drop s.log.length).all fun ev => !overtakes s ev)

/-- Every emit is acknowledged, the process stops when no call is under way, and no capability
is called "_meta". -/
def auditing (c : Run) : Label machine → Bool
  | .start (.startup files) => files.config.all fun file => metaKey ∉ file.capabilities.keys
  | .answer _ q a => answered q a
  | .crash => quiet c
  | .work i => writing traces c (.work i)
  | _ => true

/-- Every emit is acknowledged, and the process does not stop. -/
def undisturbed (_ : Run) : Label machine → Bool
  | .answer _ q a => answered q a
  | .crash => false
  | _ => true

theorem answered_sound {q : Req} {a : Req.Ans q} (h : answered q a = true) : Answered q a := by
  cases q with
  | deliver =>
    cases a with
    | accepted => rfl
    | rejected | lost => cases h
  | acknowledge => exact h
  | ollamaModelInfo | uuid7 => trivial

end Condition

section Edges

variable {s : World} {cap c : PyStr} {f : Entry → Entry} {e : Entry} {ev : Event}

theorem edges_append (cap : PyStr) (log late : List Event) :
    edges cap (log ++ late) = edges cap log ++ edges cap late := List.filterMap_append

theorem edges_erase_none (h : ev.edge? cap = none) (late : List Event) :
    edges cap (late.erase ev) = edges cap late := by
  induction late with
  | nil => rfl
  | cons ev' rest ih =>
    by_cases same : ev' = ev
    · subst same
      rw [List.erase_cons_head, edges, edges, List.filterMap_cons_none h]
    · rw [List.erase_cons_tail (by simpa using same)]
      simp only [edges, List.filterMap_cons] at ih ⊢
      rw [ih]

/-- The first of the events about a capability. -/
theorem edges_erase_first (late : List Event) (here : ev ∈ late)
    (first : edges cap (late.takeWhile fun ev' => ev' ≠ ev) = []) :
    edges cap late = edges cap [ev] ++ edges cap (late.erase ev) := by
  induction late with
  | nil => cases here
  | cons ev' rest ih =>
    by_cases same : ev' = ev
    · subst same
      rw [List.erase_cons_head]
      exact edges_append cap [ev'] rest
    · rw [List.takeWhile_cons_of_pos (by simpa using same)] at first
      have silent : ev'.edge? cap = none := by
        cases edge : ev'.edge? cap with
        | none => rfl
        | some change =>
          rw [edges, List.filterMap_cons_some edge] at first
          cases first
      rw [edges, List.filterMap_cons_none silent] at first
      have later := (List.mem_cons.mp here).resolve_left (Ne.symm same)
      rw [List.erase_cons_tail (by simpa using same), edges, List.filterMap_cons_none silent,
        edges, edges, List.filterMap_cons_none silent]
      exact ih later first

/-- A logged event takes its place among those on their way. -/
theorem edges_record (here : ev ∈ s.unlogged) (first : overtakes s ev = false) (cap : PyStr) :
    edges cap ((s.record ev).log ++ (s.record ev).unlogged) = edges cap (s.log ++ s.unlogged) := by
  have moved : edges cap s.unlogged = edges cap [ev] ++ edges cap (s.unlogged.erase ev) := by
    cases edge : ev.edge? cap with
    | none =>
      have silent : edges cap [ev] = [] := List.filterMap_cons_none edge
      rw [edges_erase_none edge, silent]
      rfl
    | some change =>
      refine edges_erase_first _ here ?_
      unfold Event.edge? ofCap at edge
      unfold overtakes at first
      cases told : ev.body.change? with
      | none =>
        rw [told] at edge
        cases edge
      | some whole =>
        obtain ⟨c, f, t⟩ := whole
        rw [told] at edge first
        by_cases same : c = cap
        · subst same
          simpa using first
        · simp only [if_neg same] at edge
          cases edge
  simp only [World.record, edges_append, moved, List.append_assoc]

theorem changes_cons (cap : PyStr) (h : Happening) (history : List Happening) :
    changes cap (h :: history) = changes cap history ++ (h.edge? cap).toList := by
  cases edge : h.edge? cap with
  | none => simp [changes, edge]
  | some change => simp [changes, edge]

theorem changes_edit_same (at_ : s.entryAt? c = some e) (same : (f e).effective = e.effective) :
    changes cap (s.edit c f).history = changes cap s.history := by
  simp only [World.edit, World.entrance, at_, if_pos same, List.nil_append]

theorem changes_edit_ne (h : cap ≠ c) :
    changes cap (s.edit c f).history = changes cap s.history := by
  rw [World.edit, World.entrance]
  split
  · rfl
  · split
    · rfl
    · rw [List.cons_append, List.nil_append, changes_cons, Happening.edge?, if_neg h.symm]
      exact List.append_nil _

theorem changes_edit (at_ : s.entryAt? c = some e) (ne : (f e).effective ≠ e.effective) :
    changes c (s.edit c f).history =
      changes c s.history ++ [(e.effective, (f e).effective)] := by
  simp only [World.edit, World.entrance, at_, if_neg ne, List.cons_append, List.nil_append,
    changes_cons, Happening.edge?, if_pos, Option.toList_some]

theorem changes_counters (s : World) (cap c : PyStr) (g : Counters → Counters) :
    changes cap (s.edit c (·.withCounters g)).history = changes cap s.history := by
  rw [World.edit, entrance_counters]
  rfl

theorem changes_fresh (s : World) (cap : PyStr) :
    changes cap s.initializeFromRegistry.history = changes cap s.history := by
  rw [World.initializeFromRegistry]
  simp only
  induction s.registry.keys with
  | nil => rfl
  | cons key rest ih =>
    rw [List.map_cons, List.cons_append, changes_cons, ih]
    exact List.append_nil _

theorem replay_append (edges : List (Int × Int)) (edge : Int × Int) :
    replay (edges ++ [edge]) = edge.2 := by
  rw [replay, List.foldl_append]
  rfl

end Edges

section Balance

/-- The change whose event a call has yet to send. -/
def Stage.owed? : Stage → Option (PyStr × Int × Int)
  | .lowered cap f t true | .owing cap f t => some (cap, f, t)
  | .lowered _ _ _ false | .idle | .flying .. | .due _ | .raised .. | .overriding .. => none

def Stage.ahead (cap : PyStr) (σ : Stage) : Option (Int × Int) := ofCap cap σ.announced?

def Stage.behind (cap : PyStr) (σ : Stage) : Option (Int × Int) := ofCap cap σ.owed?

/-- Nothing is under way with the capability. -/
def Still (cap : PyStr) (σ : Stage) : Prop := σ.ahead cap = none ∧ σ.behind cap = none

/-- The events sent and the changes made agree, but for what is under way. -/
structure Even (cap : PyStr) (s : World) (σ : Stage) : Prop where
  balance : edges cap (s.log ++ s.unlogged) ++ (σ.behind cap).toList =
    changes cap s.history ++ (σ.ahead cap).toList
  ahead : ∀ {f t : Int}, σ.ahead cap = some (f, t) → s.level? cap = some f ∧ f ≠ t

/-- At most one call has something under way with the capability. -/
def Balance (cap : PyStr) (s : World) (toks : Toks) : Prop :=
  (Even cap s .idle ∧ ∀ {k : Nat} {t : Tag} {τ : Tok}, toks[k]? = some (t, τ) → Still cap τ.stage) ∨
    ∃ (k : Nat) (t : Tag) (τ : Tok), toks[k]? = some (t, τ) ∧ Even cap s τ.stage ∧
      ∀ {j : Nat} {t' : Tag} {τ' : Tok}, k ≠ j → toks[j]? = some (t', τ') → Still cap τ'.stage

def Stage.raises (cap : PyStr) : Stage → Bool
  | .raised c _ => c = cap
  | _ => false

structure Explaining (s : World) (toks : Toks) : Prop where
  balanced : ∀ cap, Balance cap s toks
  sums : ∀ {cap : PyStr} {e : Entry}, s.entryAt? cap = some e →
    replay (changes cap s.history) = e.effective
  silent : ∀ {cap : PyStr}, s.entryAt? cap = none → changes cap s.history = []
  noMeta : s.entryAt? metaKey = none
  plain : metaKey ∉ s.registry.keys
  loading : ∀ {i : Nat} {t : Tag} {file : ConfigFile} {σ : Stage},
    toks[i]? = some (t, ⟨.loading (some file), σ⟩) → metaKey ∉ file.capabilities.keys
  coherent : ∀ {cap : PyStr} {e : Entry}, s.entryAt? cap = some e → e.status = .suspended →
    e.effectiveWalLevel = -1 ∨ Staged (·.raises cap) toks

end Balance

section Moves

variable {acked : Prop} {s s' : World} {toks : Toks} {i : Nat} {t : Tag} {τ τ' : Tok}
  {cap c : PyStr} {e e' : Entry} {f l : Int} {g : Entry → Entry} {σ σ' : Stage} {ev : Event}

theorem ofCap_self (edge : Int × Int) : ofCap cap (some (cap, edge)) = some edge := if_pos rfl

theorem ofCap_ne (h : cap ≠ c) (edge : Int × Int) : ofCap cap (some (c, edge)) = none :=
  if_neg h.symm

theorem still_idle : Still cap .idle := ⟨rfl, rfl⟩

theorem Even.still (h : Even cap s σ) (still : Still cap σ) :
    edges cap (s.log ++ s.unlogged) = changes cap s.history := by
  have balance := h.balance
  rwa [still.1, still.2, Option.toList_none, List.append_nil, List.append_nil] at balance

theorem Even.of_still (h : edges cap (s.log ++ s.unlogged) = changes cap s.history)
    (still : Still cap σ) : Even cap s σ := by
  refine ⟨?_, fun told => ?_⟩
  · rw [still.1, still.2, h]
  · rw [still.1] at told
    cases told

/-- Nothing that matters to the capability changes. -/
theorem Even.kept (h : Even cap s σ) (log : edges cap (s'.log ++ s'.unlogged) =
      edges cap (s.log ++ s.unlogged)) (history : changes cap s'.history = changes cap s.history)
    (level : s'.level? cap = s.level? cap) (ahead : σ'.ahead cap = σ.ahead cap)
    (behind : σ'.behind cap = σ.behind cap) : Even cap s' σ' := by
  refine ⟨?_, fun told => ?_⟩
  · rw [log, history, ahead, behind]
    exact h.balance
  · rw [level]
    exact h.ahead (ahead ▸ told)

/-- What may be sent without an announcement: an event that is owed, or one about no level. -/
theorem sends_silent {b : Base} {body : Body} (may : Sends b σ s body)
    (silent : body.announced? = none) (other : body.isOverride = false) :
    body.change? = σ.owed? ∧ σ.announced? = none := by
  have idle (h : σ = .idle) (none_ : body.change? = none) :
      body.change? = σ.owed? ∧ σ.announced? = none := by
    rw [h, none_]
    exact ⟨rfl, rfl⟩
  cases body with
  | promoted | decayed => cases silent
  | demoted cap name f t trigger ref =>
    by_cases manual : trigger = .manual
    · rw [Body.announced?, if_pos (by simp [Body.announces, manual])] at silent
      cases silent
    · rw [Sends, if_neg manual] at may
      rw [may]
      exact ⟨rfl, rfl⟩
  | jobOverridden => cases other
  | promotionRecommended => exact idle may.2.1 rfl
  | configChange | modelChange | startup => exact idle may rfl

theorem sends_calm {b : Base} {body : Body} (may : Sends b σ s body) (cap : PyStr) :
    σ.raises cap = false := by
  rcases sends_stage may with rfl | ⟨c, f, t, rfl⟩ <;> rfl

theorem edges_send (s : World) (ev : Event) (cap : PyStr) :
    edges cap ((s.send ev).log ++ (s.send ev).unlogged) =
      edges cap (s.log ++ s.unlogged) ++ (ev.edge? cap).toList := by
  simp only [World.send, edges_append, List.append_assoc]
  congr 2

theorem even_send {b : Base} (may : Sends b σ s ev.body) (other : ev.body.isOverride = false)
    (coherent : ∀ {cap e}, s.entryAt? cap = some e → e.status = .suspended →
      e.effectiveWalLevel = -1)
    (h : Even cap s σ) : Even cap (s.send ev) (.flying ev false) := by
  cases told : ev.body.announced? with
  | none =>
    obtain ⟨owed, quiet⟩ := sends_silent may told other
    have balance := h.balance
    rw [show σ.ahead cap = none by rw [Stage.ahead, quiet]; rfl] at balance
    refine ⟨?_, fun ahead => ?_⟩
    · rw [edges_send, Event.edge?, owed, Stage.ahead, Stage.announced?, told]
      exact (List.append_nil _).trans balance
    · rw [Stage.ahead, Stage.announced?, told] at ahead
      cases ahead
  | some change =>
    obtain ⟨c, f, l⟩ := change
    obtain ⟨rfl, ne, starts⟩ := sends_announced may told
    have balance := h.still still_idle
    refine ⟨?_, fun {f' l'} ahead => ?_⟩
    · rw [edges_send, Event.edge?, announced_change told, Stage.ahead, Stage.announced?, told,
        balance]
      exact List.append_nil _
    · rw [Stage.ahead, Stage.announced?, told] at ahead
      by_cases same : cap = c
      · subst same
        rw [ofCap_self] at ahead
        cases ahead
        refine ⟨?_, ne⟩
        rcases starts with ⟨-, level⟩ | ⟨-, floor, -, e, here, rfl⟩
        · exact level
        · have active : e.status ≠ .suspended := by
            intro suspended
            have := coherent here suspended
            omega
          change s.level? cap = _
          rw [World.level?, here, Option.map_some, Entry.effective, if_neg active]
      · rw [ofCap_ne same] at ahead
        cases ahead

/-- The change that has been announced is made. -/
theorem even_made {f : Int} (h : Even cap s σ) (told : σ.ahead cap = some (f, l))
    (behind : σ.behind cap = none)
    (makes : ∀ e, s.entryAt? cap = some e → e.effective = f → (g e).effective = l)
    (still : Still cap σ') : Even cap (s.edit cap g) σ' := by
  obtain ⟨level, ne⟩ := h.ahead told
  obtain ⟨e, here, rfl⟩ := Option.map_eq_some_iff.mp level
  have made := makes e here rfl
  have balance := h.balance
  rw [told, behind, Option.toList_none, Option.toList_some, List.append_nil] at balance
  refine .of_still (balance.trans ?_) still
  rw [changes_edit here (by rw [made]; exact ne.symm), made]

/-- A change of another capability. -/
theorem even_aside (h : Even cap s σ) (other : cap ≠ c) (ahead : σ'.ahead cap = σ.ahead cap)
    (behind : σ'.behind cap = σ.behind cap) : Even cap (s.edit c g) σ' := by
  refine h.kept rfl (changes_edit_ne other) ?_ ahead behind
  rw [level?_edit, if_neg other]

theorem even_lower (h : Even cap s σ) (still : Still cap σ) (level : s.level? c = some f)
    (ne : f ≠ l) : Even cap (s.edit c (·.demote l)) (.lowered c f l true) := by
  have balance := h.still still
  by_cases same : cap = c
  · subst same
    obtain ⟨e, here, rfl⟩ := Option.map_eq_some_iff.mp level
    have changed : (e.demote l).effective ≠ e.effective := by
      rw [Entry.effective_demote]
      exact ne.symm
    refine ⟨?_, nofun⟩
    rw [changes_edit here changed, Entry.effective_demote]
    change edges cap (s.log ++ s.unlogged) ++ (ofCap cap (some (cap, e.effective, l))).toList = _
    rw [ofCap_self, balance]
    exact (List.append_nil _).symm
  · have behind : (Stage.lowered c f l true).behind cap = none := ofCap_ne same (f, l)
    exact even_aside h same still.1.symm (behind.trans still.2.symm)

theorem even_counters (h : Even cap s σ) {k : Counters → Counters} (ahead : σ'.ahead cap = σ.ahead cap)
    (behind : σ'.behind cap = σ.behind cap) : Even cap (s.edit c (·.withCounters k)) σ' :=
  h.kept rfl (changes_counters ..) (level?_counters ..) ahead behind

/-- A demotion that was announced. -/
theorem even_announced {b : Body} (h : Even cap s (.due b)) (told : b.change? = some (c, f, l))
    (still : ∀ cap, Still cap σ') : Even cap (s.edit c (·.demote l)) σ' := by
  have ahead : (Stage.due b).ahead cap = ofCap cap (some (c, f, l)) := by
    rw [← told]
    rfl
  by_cases same : cap = c
  · subst same
    exact even_made h (ahead.trans (ofCap_self (f, l))) rfl
      (fun e _ _ => Entry.effective_demote l e) (still cap)
  · have none_ : (Stage.due b).ahead cap = none := ahead.trans (ofCap_ne same (f, l))
    exact even_aside h same ((still cap).1.trans none_.symm) (still cap).2

theorem decay_change {b : Body} (h : b.decay? = some (c, f)) : b.change? = some (c, f, f - 1) := by
  cases b with
  | decayed => cases h; rfl
  | _ => cases h

theorem even_raise {b : Body} (h : Even cap s (.due b)) (told : b.change? = some (c, f, l))
    (sane : ∀ {cap e}, s.entryAt? cap = some e → e.status = .active → 0 ≤ e.effectiveWalLevel) :
    Even cap (s.edit c (·.setLevel l)) (if f = -1 then .raised c l else .idle) := by
  have ahead (c' : PyStr) : (Stage.due b).ahead c' = ofCap c' (some (c, f, l)) := by
    rw [← told]
    rfl
  by_cases same : cap = c
  · subst same
    have mine : (Stage.due b).ahead cap = some (f, l) := (ahead cap).trans (ofCap_self (f, l))
    obtain ⟨level, ne⟩ := h.ahead mine
    obtain ⟨e, here, effective⟩ := Option.map_eq_some_iff.mp level
    by_cases floor : f = -1
    · rw [if_pos floor]
      subst floor
      have suspended := suspended_of_effective (sane here) effective
      have same : (e.setLevel l).effective = e.effective := by
        rw [effective, Entry.effective, if_pos]
        exact suspended
      refine h.kept rfl (changes_edit_same here same) ?_ (mine ▸ ofCap_self (-1, l)) rfl
      rw [level?_edit, if_pos rfl, here, Option.map_some, same, effective, level]
    · rw [if_neg floor]
      refine even_made h mine rfl (fun e' here' _ => ?_) still_idle
      cases here.symm.trans here'
      have active : (e.setLevel l).status ≠ .suspended := by
        intro suspended
        have : e.status = .suspended := suspended
        rw [Entry.effective, if_pos this] at effective
        exact floor effective.symm
      rw [Entry.effective, if_neg active]
      rfl
  · have none_ : (Stage.due b).ahead cap = none := (ahead cap).trans (ofCap_ne same (f, l))
    refine even_aside h same ?_ ?_
    · rw [none_]
      split
      · exact ofCap_ne same (-1, l)
      · rfl
    · split <;> rfl

theorem even_activate (h : Even cap s (.raised c l)) (raised : Raises s (.raised c l)) :
    Even cap (s.edit c (·.activate)) .idle := by
  by_cases same : cap = c
  · subst same
    refine even_made h (ofCap_self (-1, l)) rfl (fun e here _ => ?_) still_idle
    obtain ⟨-, e', there, level⟩ := raised
    cases here.symm.trans there
    exact level
  · have none_ : (Stage.raised c l).ahead cap = none := ofCap_ne same (-1, l)
    exact even_aside h same none_.symm rfl

theorem even_move (known : Orderly s toks) (at_ : toks[i]? = some (t, τ))
    (sane : ∀ {cap e}, s.entryAt? cap = some e → e.status = .active → 0 ≤ e.effectiveWalLevel)
    (coherent : ∀ {cap e}, s.entryAt? cap = some e → e.status = .suspended →
      e.effectiveWalLevel = -1 ∨ τ.stage.raises cap = true)
    (move : Move True τ s τ' s')
    (own : ∀ ev ∈ sent s s', ev.body.isOverride = false)
    (order : ∀ ev ∈ s'.log.drop s.log.length, overtakes s ev = false)
    (h : Even cap s τ.stage) : Even cap s' τ'.stage := by
  cases move with
  | @send b σ _ ev serving may =>
    refine even_send may (own ev (by rw [sent_send]; exact List.mem_singleton_self _)) ?_ h
    intro cap e here suspended
    refine (coherent here suspended).resolve_right ?_
    rw [sends_calm may cap]
    decide
  | @record b _ ev =>
    have waits : ev ∈ s.unlogged := by
      have one : unlogged ev (t, (⟨b, .flying ev false⟩ : Tok)) = 1 := if_pos rfl
      have some_ := tally_pos (f := unlogged ev) at_ (by omega)
      rw [← known.waiting] at some_
      exact List.count_pos_iff.mp some_
    refine h.kept (edges_record waits (order ev ?_) cap) rfl rfl rfl rfl
    simp [World.record]
  | @arrive b _ ev logged acked =>
    obtain rfl := acked trivial
    refine h.kept rfl rfl rfl ?_ ?_
    · rw [Stage.ahead, announced_landed]
      rfl
    · unfold landed
      split <;> rfl
  | @lower b σ _ c f l serving other from_ level way =>
    refine even_lower h ?_ level way.1
    rcases from_ with rfl | ⟨ex, rfl⟩
    · exact still_idle
    · exact still_idle
  | @decay _ _ b c f serving here told => exact even_announced h (decay_change told) fun _ => ⟨rfl, rfl⟩
  | @bring _ _ b c f l config here told => exact even_announced h told fun _ => ⟨rfl, rfl⟩
  | @reset b _ c f l tell =>
    cases tell with
    | true | false => exact even_counters h rfl rfl
  | @raise _ _ b c f l config here told => exact even_raise h told sane
  | @activate _ c l => exact even_activate h (known.raised at_)
  | @outcome _ c o =>
    have counted : Even cap (s.edit c (·.withCounters (.record o))) .idle := even_counters h rfl rfl
    refine counted.kept rfl ?_ rfl rfl rfl
    rw [World.recordOutcome, World.note, changes_cons]
    exact List.append_nil _
  | counters => exact even_counters h rfl rfl
  | override =>
    refine h.kept rfl ?_ rfl rfl rfl
    rw [World.note, changes_cons]
    exact List.append_nil _
  | load | tick => exact h.kept rfl rfl rfl rfl rfl
  | begin | keep | configured | up =>
    obtain ⟨p, eq⟩ := enter_eq s _
    rw [eq]
    exact h.kept rfl rfl rfl rfl rfl
  | init =>
    refine .of_still ?_ still_idle
    rw [changes_fresh]
    exact h.still still_idle
  | updateMeta => exact .of_still (h.still still_idle) still_idle

theorem announcesFor_ahead {logged : Bool} (told : (Stage.flying ev logged).ahead cap = some (f, l)) :
    ev.announcesFor cap = true := by
  change ofCap cap ev.body.announced? = _ at told
  unfold Body.announced? at told
  split at told
  · rename_i announces
    rw [Event.announcesFor, announces, Event.edge?, told]
    rfl
  · cases told

/-- An event that is sent while a change of the capability is announced is about another one. -/
theorem apart_edge {ev' : Event} (free : apart s ev = true) (here : ev' ∈ s.inFlight)
    (announces : ev'.announcesFor cap = true) : ev.edge? cap = none := by
  unfold apart at free
  unfold Event.edge?
  cases told : ev.body.change? with
  | none => rfl
  | some change =>
    obtain ⟨c, edge⟩ := change
    refine if_neg fun same => ?_
    subst same
    rw [told] at free
    have := List.all_eq_true.mp free ev' here
    rw [announces] at this
    cases this

/-- While another call has announced a change of the capability, nothing happens to it. -/
theorem aside_move (known : Orderly s toks) (at_ : toks[i]? = some (t, τ))
    (move : Move True τ s τ' s') (noMeta : s.entryAt? metaKey = none)
    (level : s.level? cap = some f) (still : Still cap τ.stage)
    (same : ∀ e e', s.entryAt? cap = some e → s'.entryAt? cap = some e' → e'.effective = e.effective)
    (apart : ∀ ev ∈ sent s s', ev.edge? cap = none)
    (order : ∀ ev ∈ s'.log.drop s.log.length, overtakes s ev = false) :
    edges cap (s'.log ++ s'.unlogged) = edges cap (s.log ++ s.unlogged) ∧
      changes cap s'.history = changes cap s.history ∧ s'.level? cap = s.level? cap ∧
      Still cap τ'.stage := by
  obtain ⟨e, here, rfl⟩ := Option.map_eq_some_iff.mp level
  have edit {c : PyStr} {g : Entry → Entry}
      (same : ∀ e e', s.entryAt? cap = some e → (s.edit c g).entryAt? cap = some e' →
        e'.effective = e.effective) :
      changes cap (s.edit c g).history = changes cap s.history ∧
        (s.edit c g).level? cap = s.level? cap := by
    by_cases mine : cap = c
    · subst mine
      have after : (s.edit cap g).entryAt? cap = some (g e) := by
        rw [entryAt?_edit_self, here]
        rfl
      have equal := same e (g e) here after
      refine ⟨changes_edit_same here equal, ?_⟩
      rw [World.level?, after, level, Option.map_some, equal]
    · exact ⟨changes_edit_ne mine, by rw [level?_edit, if_neg mine]⟩
  have notMine {c : PyStr} {edge : Int × Int} (none_ : ofCap cap (some (c, edge)) = none) :
      cap ≠ c := by
    rintro rfl
    cases (ofCap_self edge).symm.trans none_
  cases move with
  | @send b σ _ ev serving may =>
    have other := apart ev (by rw [sent_send]; exact List.mem_singleton_self _)
    refine ⟨?_, rfl, rfl, ?_, rfl⟩
    · rw [edges_send, other]
      exact List.append_nil _
    · change ofCap cap ev.body.announced? = none
      unfold Body.announced?
      split
      · exact other
      · rfl
  | @record b _ ev =>
    have waits : ev ∈ s.unlogged := by
      have one : unlogged ev (t, (⟨b, .flying ev false⟩ : Tok)) = 1 := if_pos rfl
      have some_ := tally_pos (f := unlogged ev) at_ (by omega)
      rw [← known.waiting] at some_
      exact List.count_pos_iff.mp some_
    exact ⟨edges_record waits (order ev (by simp [World.record])) cap, rfl, rfl, still⟩
  | @arrive b _ ev logged acked =>
    obtain rfl := acked trivial
    refine ⟨rfl, rfl, rfl, ?_, ?_⟩
    · rw [Stage.ahead, announced_landed]
      exact still.1
    · unfold landed
      split <;> rfl
  | @lower b σ _ c f l serving other from_ level way =>
    obtain ⟨history, kept⟩ := edit same
    refine ⟨rfl, history, kept, rfl, ?_⟩
    refine ofCap_ne ?_ (f, l)
    rintro rfl
    obtain ⟨e₁, there, rfl⟩ := Option.map_eq_some_iff.mp level
    have after : (s.edit cap (·.demote l)).entryAt? cap = some (e₁.demote l) := by
      rw [entryAt?_edit_self, there]
      rfl
    have equal := same e₁ _ there after
    rw [Entry.effective_demote] at equal
    exact way.1 equal.symm
  | decay | bring | activate | counters =>
    obtain ⟨history, kept⟩ := edit same
    exact ⟨rfl, history, kept, by first | exact ⟨rfl, rfl⟩ | exact still⟩
  | @reset b _ c f l tell =>
    obtain ⟨history, kept⟩ := edit same
    refine ⟨rfl, history, kept, ?_⟩
    cases tell with
    | true => exact still
    | false => exact still_idle
  | @raise _ _ b c f l config found told =>
    obtain ⟨history, kept⟩ := edit same
    have none_ : ofCap cap (some (c, f, l)) = none := by
      rw [← told]
      exact still.1
    refine ⟨rfl, history, kept, ?_⟩
    split
    · exact ⟨ofCap_ne (notMine none_) (-1, l), rfl⟩
    · exact still_idle
  | @outcome _ c o =>
    refine ⟨rfl, ?_, level?_counters s .., still_idle⟩
    rw [World.recordOutcome, World.note, changes_cons, changes_counters]
    exact List.append_nil _
  | override =>
    refine ⟨rfl, ?_, rfl, still_idle⟩
    rw [World.note, changes_cons]
    exact List.append_nil _
  | load | tick => exact ⟨rfl, rfl, rfl, still⟩
  | begin | keep | configured | up =>
    obtain ⟨p, eq⟩ := enter_eq s _
    rw [eq]
    exact ⟨rfl, rfl, rfl, still_idle⟩
  | init down new => cases (known.fresh new cap).symm.trans here
  | updateMeta =>
    have ne : cap ≠ metaKey := by
      rintro rfl
      cases noMeta.symm.trans here
    refine ⟨rfl, rfl, ?_, still_idle⟩
    exact congrArg (Option.map Entry.effective) (Dict.get?_erase_ne s.state.entries ne)

/-- What the check of a write gives. -/
structure Traced (s s' : World) : Prop where
  level : ∀ {cap : PyStr} {e e' : Entry}, s.entryAt? cap = some e → s'.entryAt? cap = some e' →
    e'.effective ≠ e.effective → ∀ ev ∈ s.inFlight, ev.announcesFor cap = false
  own : ∀ ev ∈ sent s s', ev.body.isOverride = false
  apart : ∀ ev ∈ sent s s', apart s ev = true
  order : ∀ ev ∈ s'.log.drop s.log.length, overtakes s ev = false

theorem traced (h : traces s t s' = true) : Traced s s' := by
  simp only [traces, Bool.and_eq_true, List.all_eq_true] at h
  obtain ⟨⟨levels, sends⟩, logs⟩ := h
  refine ⟨?_, fun ev mem => ?_, fun ev mem => (sends ev mem).2, fun ev mem => ?_⟩
  · intro cap e e' here there ne ev mem
    simpa using levels _ (mem_relevelled here there ne) ev mem
  · simpa using (sends ev mem).1
  · simpa using logs ev mem

theorem balance_move (known : Orderly s toks) (steady : Steady s toks) (inv : Explaining s toks)
    (at_ : toks[i]? = some (t, τ)) (parked : Plan.Parked (conduct True) toks (some i))
    (move : Move True τ s τ' s') (trace : Traced s s') (cap : PyStr) :
    Balance cap s' (toks.set i (t, τ')) := by
  have bound : i < toks.length := (List.getElem?_eq_some_iff.mp at_).1
  have mine (even : Even cap s τ.stage) (still : ∀ {j : Nat} {t₁ : Tag} {τ₁ : Tok}, i ≠ j →
      toks[j]? = some (t₁, τ₁) → Still cap τ₁.stage) : Balance cap s' (toks.set i (t, τ')) := by
    refine .inr ⟨i, t, τ', List.getElem?_set_self bound, ?_, fun ne h => ?_⟩
    · refine even_move known at_ steady.sane ?_ move trace.own trace.order even
      intro c e here suspended
      exact (inv.coherent here suspended).imp_right fun held =>
        held.mover at_ parked rfl fun _ _ => rfl
    · rw [List.getElem?_set_ne ne] at h
      exact still ne h
  rcases inv.balanced cap with ⟨even, still⟩ | ⟨k, t₁, τ₁, other, even, still⟩
  · exact mine (.of_still (even.still still_idle) (still at_)) fun _ h => still h
  by_cases same : i = k
  · subst same
    cases at_.symm.trans other
    exact mine even still
  have calm := still (Ne.symm same) at_
  by_cases nothing : Still cap τ₁.stage
  · refine mine (.of_still (even.still nothing) calm) fun {j t₂ τ₂} ne h => ?_
    by_cases that : k = j
    · subst that
      cases other.symm.trans h
      exact nothing
    · exact still that h
  -- the other call waits for the event that announces its change
  rcases (parked (by simpa using same) other).2 with ⟨ev, logged, stage⟩ | stage
  case inr =>
    change τ₁.stage = _ at stage
    rw [stage] at nothing
    exact absurd still_idle nothing
  change τ₁.stage = _ at stage
  have told : ∃ f l, τ₁.stage.ahead cap = some (f, l) := by
    cases ahead : τ₁.stage.ahead cap with
    | some edge => exact ⟨edge.1, edge.2, rfl⟩
    | none =>
      refine absurd ⟨ahead, ?_⟩ nothing
      rw [stage]
      rfl
  obtain ⟨f, l, told⟩ := told
  have here := flying_here known other stage
  have announces := announcesFor_ahead (stage ▸ told)
  obtain ⟨log, history, level, quiet⟩ := aside_move known at_ move inv.noMeta (even.ahead told).1 calm
    (fun e e' at₁ at₂ => by
      by_contra ne
      rw [trace.level at₁ at₂ ne ev here] at announces
      cases announces)
    (fun ev' mem => apart_edge (trace.apart ev' mem) here announces) trace.order
  refine .inr ⟨k, t₁, τ₁, ?_, even.kept log history level rfl rfl, fun {j t₂ τ₂} ne h => ?_⟩
  · rw [List.getElem?_set_ne same]
    exact other
  · rcases get_set_cases h with ⟨-, eq⟩ | ⟨-, old⟩
    · cases eq
      exact quiet
    · exact still ne old

theorem sums_edit (sums : ∀ {cap e}, s.entryAt? cap = some e → replay (changes cap s.history) = e.effective)
    (at' : (s.edit c g).entryAt? cap = some e') :
    replay (changes cap (s.edit c g).history) = e'.effective := by
  rcases edited at' with ⟨ne, here⟩ | ⟨rfl, e, here, rfl⟩
  · rw [changes_edit_ne ne]
    exact sums here
  · by_cases same : (g e).effective = e.effective
    · rw [changes_edit_same here same, same]
      exact sums here
    · rw [changes_edit here same, replay_append]

theorem sums_move (known : Orderly s toks) (inv : Explaining s toks) (move : Move True τ s τ' s')
    (at' : s'.entryAt? cap = some e') : replay (changes cap s'.history) = e'.effective := by
  cases move with
  | send | record | arrive | load | tick => exact inv.sums at'
  | begin | keep | configured | up =>
    obtain ⟨p, eq⟩ := enter_eq s _
    rw [eq] at at' ⊢
    exact inv.sums at'
  | lower | decay | bring | reset | raise | activate | counters => exact sums_edit inv.sums at'
  | @outcome _ c o =>
    have counted := sums_edit (s := s) inv.sums at'
    rw [World.recordOutcome, World.note, changes_cons]
    exact (congrArg replay (List.append_nil _)).trans counted
  | override =>
    rw [World.note, changes_cons]
    exact (congrArg replay (List.append_nil _)).trans (inv.sums at')
  | init down new =>
    rw [(initialized_entry at').1, changes_fresh, inv.silent (known.fresh new cap)]
    rfl
  | updateMeta =>
    by_cases key : cap = metaKey
    · subst key
      have gone := Dict.get?_erase_self s.state.entries metaKey
      cases gone.symm.trans at'
    · have same := Dict.get?_erase_ne s.state.entries key
      exact inv.sums (same.symm.trans at')

theorem silent_move (known : Orderly s toks) (inv : Explaining s toks) (move : Move True τ s τ' s')
    (gone : s'.entryAt? cap = none) : changes cap s'.history = [] := by
  have edit {c : PyStr} {g : Entry → Entry} (gone : (s.edit c g).entryAt? cap = none) :
      changes cap (s.edit c g).history = [] := by
    have before : s.entryAt? cap = none := by
      rw [entryAt?_edit] at gone
      split at gone
      · rename_i same
        rw [same]
        exact Option.map_eq_none_iff.mp gone
      · exact gone
    by_cases same : cap = c
    · subst same
      rw [World.edit, World.entrance, before]
      exact inv.silent before
    · rw [changes_edit_ne same]
      exact inv.silent before
  cases move with
  | send | record | arrive | load | tick => exact inv.silent gone
  | begin | keep | configured | up =>
    obtain ⟨p, eq⟩ := enter_eq s _
    rw [eq] at gone ⊢
    exact inv.silent gone
  | lower | decay | bring | reset | raise | activate | counters => exact edit gone
  | @outcome _ c o =>
    have counted := edit gone
    rw [World.recordOutcome, World.note, changes_cons]
    exact (List.append_nil _).trans counted
  | override =>
    rw [World.note, changes_cons]
    exact (List.append_nil _).trans (inv.silent gone)
  | init down new =>
    rw [changes_fresh]
    exact inv.silent (known.fresh new cap)
  | updateMeta =>
    by_cases key : cap = metaKey
    · subst key
      exact inv.silent inv.noMeta
    · have same := Dict.get?_erase_ne s.state.entries key
      exact inv.silent (same.symm.trans gone)

theorem counted_entry {k : Counters → Counters}
    (at' : (s.edit c (·.withCounters k)).entryAt? cap = some e') :
    ∃ e, s.entryAt? cap = some e ∧ e'.effectiveWalLevel = e.effectiveWalLevel ∧
      e'.status = e.status := by
  rcases edited at' with ⟨-, here⟩ | ⟨rfl, e, here, rfl⟩
  · exact ⟨e', here, rfl, rfl⟩
  · exact ⟨e, here, rfl, rfl⟩

theorem coherent_move (coherent : ∀ {cap e}, s.entryAt? cap = some e → e.status = .suspended →
      e.effectiveWalLevel = -1 ∨ τ.stage.raises cap = true)
    (level : ∀ {b c f l}, τ = ⟨.reconciling, .due b⟩ → b.change? = some (c, f, l) →
      s.level? c = some f)
    (move : Move True τ s τ' s') (at' : s'.entryAt? cap = some e') (suspended : e'.status = .suspended) :
    e'.effectiveWalLevel = -1 ∨ τ'.stage.raises cap = true := by
  have calm (still : τ.stage.raises cap = false) {e : Entry} (here : s.entryAt? cap = some e)
      (suspended : e.status = .suspended) : e.effectiveWalLevel = -1 :=
    (coherent here suspended).resolve_right (by rw [still]; decide)
  have lowered {c : PyStr} {l : Int} (still : τ.stage.raises cap = false)
      (at' : (s.edit c (·.demote l)).entryAt? cap = some e') : e'.effectiveWalLevel = -1 := by
    rcases edited at' with ⟨-, here⟩ | ⟨rfl, e, here, rfl⟩
    · exact calm still here suspended
    · rw [level_demote]
      exact (Entry.status_demote l e).mp suspended
  cases move with
  | send serving may => exact .inl (calm (sends_calm may cap) at' suspended)
  | record | arrive | load | tick | override => exact .inl (calm rfl at' suspended)
  | begin | keep | configured | up =>
    rw [World.entryAt?, state_enter] at at'
    exact .inl (calm rfl at' suspended)
  | lower serving other from_ =>
    refine .inl (lowered ?_ at')
    rcases from_ with rfl | ⟨ex, rfl⟩
    · rfl
    · rfl
  | decay | bring => exact .inl (lowered rfl at')
  | reset =>
    obtain ⟨e, here, level, status⟩ := counted_entry at'
    exact .inl (level.trans (calm rfl here (status ▸ suspended)))
  | @raise _ _ b c f l config found told =>
    rcases edited at' with ⟨-, here⟩ | ⟨rfl, e, here, rfl⟩
    · exact .inl (calm rfl here suspended)
    · have before : e.status = .suspended := suspended
      have floor := level rfl told
      rw [World.level?, here, Option.map_some, Entry.effective, if_pos before] at floor
      cases floor
      exact .inr (decide_eq_true rfl)
  | @activate _ c l =>
    rcases edited at' with ⟨ne, here⟩ | ⟨rfl, e, here, rfl⟩
    · exact .inl (calm (decide_eq_false ne.symm) here suspended)
    · cases suspended
  | outcome =>
    obtain ⟨e, here, level, status⟩ := counted_entry (s := s) at'
    exact .inl (level.trans (calm rfl here (status ▸ suspended)))
  | counters =>
    obtain ⟨e, here, level, status⟩ := counted_entry at'
    exact (coherent here (status ▸ suspended)).imp_left level.trans
  | init =>
    rw [(initialized_entry at').1] at suspended
    cases suspended
  | updateMeta =>
    by_cases key : cap = metaKey
    · subst key
      have gone := Dict.get?_erase_self s.state.entries metaKey
      cases gone.symm.trans at'
    · have same := Dict.get?_erase_ne s.state.entries key
      exact .inl (calm rfl (same.symm.trans at') suspended)

theorem noMeta_move (inv : Explaining s toks) (move : Move True τ s τ' s') :
    s'.entryAt? metaKey = none := by
  cases gone : s'.entryAt? metaKey with
  | none => rfl
  | some e =>
    have edit {c : PyStr} {g : Entry → Entry} (at' : (s.edit c g).entryAt? metaKey = some e) :
        False := by
      rcases edited at' with ⟨-, here⟩ | ⟨rfl, e₀, here, -⟩
      · cases inv.noMeta.symm.trans here
      · cases inv.noMeta.symm.trans here
    cases move with
    | send | record | arrive | load | tick | override => cases inv.noMeta.symm.trans gone
    | begin | keep | configured | up =>
      rw [World.entryAt?, state_enter] at gone
      cases inv.noMeta.symm.trans gone
    | lower | decay | bring | reset | raise | activate | counters => exact (edit gone).elim
    | outcome => exact (edit (show (s.edit _ _).entryAt? metaKey = some e from gone)).elim
    | init => exact absurd (initialized_entry gone).2 inv.plain
    | updateMeta =>
      have none_ := Dict.get?_erase_self s.state.entries metaKey
      cases none_.symm.trans gone

theorem plain_move (inv : Explaining s toks) (at_ : toks[i]? = some (t, τ))
    (move : Move True τ s τ' s') : metaKey ∉ s'.registry.keys := by
  cases move with
  | load => exact inv.loading at_
  | begin | keep | configured | up =>
    rw [registry_enter]
    exact inv.plain
  | _ => exact inv.plain

theorem explaining_move (known : Orderly s toks) (steady : Steady s toks) (inv : Explaining s toks)
    (at_ : toks[i]? = some (t, τ)) (parked : Plan.Parked (conduct True) toks (some i))
    (move : Move True τ s τ' s') (trace : Traced s s') :
    Explaining s' (toks.set i (t, τ')) := by
  refine ⟨balance_move known steady inv at_ parked move trace, sums_move known inv move,
    silent_move known inv move, noMeta_move inv move, plain_move inv at_ move, ?_, ?_⟩
  · intro j t₁ file σ h
    rcases get_set_cases h with ⟨-, eq⟩ | ⟨-, other⟩
    · cases eq
      have was : ∃ σ, τ = ⟨.loading (some file), σ⟩ := by
        cases move <;> exact ⟨_, rfl⟩
      obtain ⟨σ₀, rfl⟩ := was
      exact inv.loading at_
    · exact inv.loading other
  · intro cap e at' suspended
    have before {cap : PyStr} {e : Entry} (here : s.entryAt? cap = some e)
        (suspended : e.status = .suspended) :=
      (inv.coherent here suspended).imp_right fun held => held.mover at_ parked rfl fun _ _ => rfl
    refine (coherent_move before ?_ move at' suspended).imp_right (.set at_)
    rintro b c f l rfl told
    exact steady.steady at_ rfl told

theorem explaining_append (inv : Explaining s toks)
    (loads : ∀ {file σ}, first t = ⟨.loading (some file), σ⟩ → metaKey ∉ file.capabilities.keys) :
    Explaining s (toks ++ [(t, first t)]) := by
  have last {k : Nat} {t₁ : Tag} {τ₁ : Tok} (h : (toks ++ [(t, first t)])[k]? = some (t₁, τ₁)) :
      toks[k]? = some (t₁, τ₁) ∨ τ₁ = first t := by
    rw [List.getElem?_append] at h
    split at h
    · exact .inl h
    · cases List.mem_singleton.mp (List.mem_of_getElem? h)
      exact .inr rfl
  have idle {τ₁ : Tok} (new : τ₁ = first t) {cap : PyStr} : Still cap τ₁.stage := by
    rw [new, first_stage]
    exact still_idle
  refine ⟨fun cap => ?_, inv.sums, inv.silent, inv.noMeta, inv.plain, ?_,
    fun here suspended => (inv.coherent here suspended).imp_right (·.append _)⟩
  · rcases inv.balanced cap with ⟨even, still⟩ | ⟨k, t₁, τ₁, other, even, still⟩
    · exact .inl ⟨even, fun h => (last h).elim (fun old => still old) fun new => idle new⟩
    · refine .inr ⟨k, t₁, τ₁, ?_, even, fun ne h => ?_⟩
      · rw [List.getElem?_append_left (List.getElem?_eq_some_iff.mp other).1]
        exact other
      · exact (last h).elim (fun old => still ne old) fun new => idle new
  · intro k t₁ file σ h
    rcases last h with old | new
    · exact inv.loading old
    · exact loads new.symm

/-- A call that ends leaves nothing under way. -/
theorem ended_still (inv : Explaining s toks) (even : Even cap s τ.stage)
    (ends : Ends True s τ.stage) : Still cap τ.stage := by
  cases stage : τ.stage with
  | idle | overriding => exact still_idle
  | due b =>
    refine ⟨?_, rfl⟩
    cases ahead : (Stage.due b).ahead cap with
    | none => rfl
    | some edge =>
      obtain ⟨f, l⟩ := edge
      rw [stage] at ends even
      have told : b.change? = some (cap, f, l) := by
        change ofCap cap b.change? = _ at ahead
        unfold ofCap at ahead
        split at ahead
        · rename_i c edge told
          split at ahead
          · rename_i same
            subst same
            cases ahead
            exact told
          · cases ahead
        · cases ahead
      obtain ⟨e, here, -⟩ := Option.map_eq_some_iff.mp (even.ahead ahead).1
      rw [ends trivial cap f l told] at here
      cases inv.noMeta.symm.trans here
  | flying | lowered | owing | raised =>
    rw [stage] at ends
    exact ends.elim

theorem explaining_retire (inv : Explaining s toks) (at_ : toks[i]? = some (t, τ))
    (ends : Ends True s τ.stage) : Explaining s (toks.set i (t, ⟨.call, .idle⟩)) := by
  refine ⟨fun cap => ?_, inv.sums, inv.silent, inv.noMeta, inv.plain, ?_, ?_⟩
  · rcases inv.balanced cap with ⟨even, still⟩ | ⟨k, t₁, τ₁, other, even, still⟩
    · refine .inl ⟨even, fun h => ?_⟩
      rcases get_set_cases h with ⟨-, eq⟩ | ⟨-, old⟩
      · cases eq
        exact still_idle
      · exact still old
    · by_cases same : i = k
      · subst same
        cases at_.symm.trans other
        refine .inl ⟨.of_still (even.still (ended_still inv even ends)) still_idle, fun h => ?_⟩
        rcases get_set_cases h with ⟨-, eq⟩ | ⟨ne, old⟩
        · cases eq
          exact still_idle
        · exact still ne old
      · refine .inr ⟨k, t₁, τ₁, ?_, even, fun ne h => ?_⟩
        · rw [List.getElem?_set_ne same]
          exact other
        · rcases get_set_cases h with ⟨-, eq⟩ | ⟨-, old⟩
          · cases eq
            exact still_idle
          · exact still ne old
  · intro j t₁ file σ h
    rcases get_set_cases h with ⟨-, eq⟩ | ⟨-, other⟩
    · cases eq
    · exact inv.loading other
  · intro cap e here suspended
    refine (inv.coherent here suspended).imp_right fun held => held.retire at_ ?_
    cases stage : τ.stage with
    | raised =>
      rw [stage] at ends
      exact ends.elim
    | _ => rfl

theorem quiet_tokens {c : Run} {toks : Toks} (tracks : (conduct True).Tracks c toks)
    (still : quiet c = true) {k : Nat} {t : Tag} {τ : Tok} (at_ : toks[k]? = some (t, τ)) :
    τ = ⟨.call, .idle⟩ := by
  obtain ⟨idle, finished⟩ := Bool.and_eq_true_iff.mp still
  have none_ : c.running = none := Option.isNone_iff_eq_none.mp idle
  obtain ⟨p, found⟩ := tracks.thread at_
  have done : p.Finished :=
    of_decide_eq_true (List.all_eq_true.mp finished _ (List.mem_of_getElem? found))
  rcases tracks.stopped found at_ (by simp [none_]) with ⟨_, _, _, q, k, call, _⟩ | ⟨_, _, _, _, _, _, eq⟩
  · change p = _ at call
    rw [call] at done
    exact done.elim
  · exact eq

/-- Where no call is under way, the log has every event that was sent. -/
theorem quiet_unlogged {c : Run} {toks : Toks} (tracks : (conduct True).Tracks c toks)
    (known : Orderly c.state toks) (still : quiet c = true) : c.state.unlogged = [] := by
  refine List.eq_nil_iff_forall_not_mem.mpr fun ev mem => ?_
  have some_ := List.count_pos_iff.mpr mem
  rw [known.waiting] at some_
  obtain ⟨k, ⟨t, τ⟩, at_, is⟩ := exists_of_tally_pos some_
  rw [quiet_tokens tracks still at_] at is
  exact absurd is (lt_irrefl 0)

theorem quiet_even {c : Run} {toks : Toks} (tracks : (conduct True).Tracks c toks)
    (inv : Explaining c.state toks) (still : quiet c = true) (cap : PyStr) :
    Even cap c.state .idle := by
  rcases inv.balanced cap with ⟨even, -⟩ | ⟨k, t, τ, at_, even, -⟩
  · exact even
  · rwa [quiet_tokens tracks still at_] at even

/-- What holds in every run that meets the condition. -/
theorem explaining : (conduct True).PreservesUnder (Meets auditing)
    (fun s toks => Orderly s toks ∧ Steady s toks) Explaining where
  start := by
    intro c toks t _ known inv _ _ met _
    refine explaining_append inv fun {file σ} load => ?_
    cases t with
    | startup files =>
      have config := congrArg Tok.base load
      simp only [first, Base.loading.injEq] at config
      have plain : files.config.all (fun file => metaKey ∉ file.capabilities.keys) = true := met
      rw [config, Option.all_some] at plain
      exact of_decide_eq_true plain
    | _ => cases congrArg Tok.base load
  move := by
    intro c s' toks i t k τ τ' known inv program met at_ parked move
    have check : writing traces c (.work i) = true := met
    exact explaining_move known.1 known.2 inv at_ parked move (traced (writing_work check program))
  finish := by
    intro c toks i t p τ r known inv program res met at_ ends
    exact explaining_retire inv at_ ends
  crash := by
    intro c toks s' tracks known inv met again
    obtain ⟨late, among, rfl⟩ := again
    have waits := quiet_unlogged tracks known.1 met
    have nothing : late = [] := by
      refine List.eq_nil_iff_forall_not_mem.mpr fun ev mem => ?_
      have := among ev mem
      rw [waits] at this
      cases this
    subst nothing
    refine ⟨fun cap => .inl ⟨.of_still ?_ still_idle, by intros; contradiction⟩, inv.sums,
      inv.silent, inv.noMeta, List.not_mem_nil, by intros; contradiction,
      fun here suspended => ?_⟩
    · have balance := (quiet_even tracks inv met cap).still still_idle
      rw [waits] at balance
      rw [World.restart, List.append_nil]
      exact balance
    · refine .inl ((inv.coherent here suspended).resolve_right ?_)
      rintro ⟨k, t, τ, at_, raises⟩
      rw [quiet_tokens tracks met at_] at raises
      cases raises

theorem explaining_initial : Explaining initial.state [] :=
  ⟨fun _ => .inl ⟨.of_still rfl still_idle, nofun⟩, nofun, fun _ => rfl, rfl, nofun, nofun, nofun⟩

end Moves

section Runs

variable {c : Run}

theorem log_explains (run : Reach machine (Meets auditing) initial c) (still : quiet c = true) :
    Explained c.state := by
  have known := Plan.PreservesUnder.and (orderly True (Meets auditing)) (steady True (Meets auditing))
  have sound : (conduct True).SoundUnder (Meets auditing) :=
    conduct_acked fun met => answered_sound met
  obtain ⟨toks, tracks, both, inv⟩ := Plan.reach sound (Plan.PreservesUnder.and known explaining)
    (Plan.tracks_boot _) ⟨⟨orderly_initial, steady_initial⟩, explaining_initial⟩ run
  intro cap e here
  have balance := (quiet_even tracks inv still cap).still still_idle
  rw [quiet_unlogged tracks both.1 still, List.append_nil] at balance
  refine ⟨balance, ?_⟩
  rw [balance]
  exact inv.sums here

namespace Trial

/-- The test that the log comes to another level. -/
def misled (cap : PyStr) (s : World) : Bool :=
  (s.entryAt? cap).any fun e => replay (edges cap s.log) ≠ e.effective

theorem not_explained {cap : PyStr} {s : World} (h : misled cap s = true) : ¬ Explained s := by
  intro good
  obtain ⟨e, here, bad⟩ := (Option.any_eq_true _ _).mp h
  exact of_decide_eq_true bad (good cap e here).2

/-- A script after which no call is under way and the log misleads. -/
theorem misleading (script : List (Command machine)) (cap : PyStr)
    (h : (run undisturbed script initial).any (fun c => quiet c && misled cap c.state) = true) :
    ∃ c, Reach machine (Meets undisturbed) initial c ∧ quiet c = true ∧ ¬ Explained c.state := by
  obtain ⟨c, reach, seen⟩ := reached (guards undisturbed) script
    (fun c => quiet c && misled cap c.state) h
  obtain ⟨still, bad⟩ := Bool.and_eq_true_iff.mp seen
  exact ⟨c, reach, still, not_explained bad⟩

end Trial

/-- A reconcile promotes a capability, and an override demotes it. -/
theorem log_explains_witness : ∃ c : Run, c.state.level? (py "a") = some 1 ∧ Explained c.state := by
  obtain ⟨c, run, seen⟩ := Trial.reached (Trial.guards auditing)
    [.start (.startup (Trial.file "h" [("a", Trial.capability 2 2)])), .finish 0,
      .start (.overrideDemotion (py "cancel") (py "a") none (py "event")), .finish 1]
    (fun c => quiet c && c.state.level? (py "a") = some 1) (by decide +kernel)
  obtain ⟨still, level⟩ := Bool.and_eq_true_iff.mp seen
  exact ⟨c, of_decide_eq_true level, log_explains run still⟩

/-- The job manager tells of a demotion that does not take place; and a decay and a demotion of
the same capability at the same time both start from the level that they have read. -/
theorem log_misleads :
    (∃ c, Reach machine (Meets undisturbed) initial c ∧ quiet c = true ∧ ¬ Explained c.state) ∧
    ∃ c, Reach machine (Meets undisturbed) initial c ∧ quiet c = true ∧ ¬ Explained c.state := by
  constructor
  case left =>
    exact Trial.misleading
      [.start (.startup (Trial.file "h" [("a", Trial.capability 1 1)])), .finish 0,
        .start (.jobOverride true (some (py "a")) (py "job") (py "cancel")), .finish 1]
      (py "a") (by decide +kernel)
  case right =>
    exact Trial.misleading
      [.start (.startup (Trial.file "h" [("a", Trial.capability 2 2)])), .finish 0,
        .start (.evaluate Trial.monthly),
        .start (.overrideDemotion (py "cancel") (py "a") none (py "first")),
        .start (.overrideDemotion (py "cancel") (py "a") none (py "second")), .finish 1, .finish 2,
        .finish 3]
      (py "a") (by decide +kernel)

end Runs

end Drnt.Wal
