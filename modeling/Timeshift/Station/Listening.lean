import Timeshift.Station.Basic

/-!
# Followers of the docket, and listeners and jobs of the series engines

A follower brings the events of the store to the docket, and a listener brings them to a series
engine. The work that an engine wants to be done is done in jobs. A search takes its result at
once, but a closed gate holds the result back until it opens.
-/

namespace Timeshift

namespace Station

/-! ## The docket -/

def modifyFollower (n : Nat) (f : Follower → Follower) : Act Unit :=
  modify fun s => { s with followers := s.followers.modify n f }

def hasToStop (s : Station) (f : Follower) : Bool :=
  f.isCancelled || (f.isOwned && s.isShuttingDown)

def followLoop (n : Nat) (listener : Nat) : Nat → Act Unit
  | 0 => return
  | bound + 1 => do
    match ← receive listener with
    | .event e =>
      withDocket fun catalog stored d => d.handle catalog stored e
      followLoop n listener bound
    | .missed _ =>
      withDocket fun catalog stored d => d.rebuild catalog stored
      followLoop n listener bound
    | .nothing => listen (.follower n)
    | .gone => modifyFollower n fun f => { f with hasEnded := true }

def runFollower (n : Nat) : Act Unit := do
  let s ← get
  if let some f := s.followers[n]? then
    unless f.hasEnded do
      stopListening (.follower n)
      if s.hasToStop f then
        leave f.listener
        modifyFollower n fun f => { f with hasEnded := true }
        wake .client
      else followLoop n f.listener patience

/-- A new follower. What was loaded before it came is taken in at once. -/
def addFollower (isOwned : Bool) : Act Nat := do
  let listener ← subscribe
  let s ← get
  if s.store.isLoaded then
    withDocket fun catalog stored d => d.onSchedulesLoaded catalog stored
  if s.around.catalog.isLoaded then
    withDocket fun catalog stored d => d.onChannelsLoaded catalog stored
  let n := fresh s.followers
  modify fun s => { s with followers := s.followers.insert n { listener, isOwned } }
  wake (.follower n)
  return n

def cancelFollower (n : Nat) : Act Unit := do
  modifyFollower n fun f => { f with isCancelled := true }
  wake (.follower n)

/-! ## Jobs -/

def modifyJob (n : Nat) (f : Job → Job) : Act Unit :=
  modify fun s => { s with jobs := s.jobs.modify n f }

def engine (s : Station) (e : Nat) : Engine := (s.engines[e]?).getD {}

/-- A new job for an engine. In an era that is over it is called off from the start, unless it
only tries a rule. -/
def addJob (e : Nat) (kind : JobKind) : Act Unit := do
  let s ← get
  let n := fresh s.jobs
  let engine := s.engine e
  let job : Job :=
    { engine := e, era := engine.era, kind, isCancelled := engine.isOver && !kind.isTrial }
  set { s with jobs := s.jobs.insert n job }
  wake (.job n)

def callOffJobs (which : Job → Bool) : Act Unit := do
  let found := (← get).jobs.toList.filter fun (_, j) => which j && !j.hasEnded
  found.forM fun (n, _) => do
    modifyJob n fun j => { j with isCancelled := true }
    wake (.job n)

/-- Does what an engine wants to be carried out. -/
def carryOut (e : Nat) : Engine.Task → Act Unit
  | .callOff id => callOffJobs (·.isUpdate e id)
  | .update id rules => addJob e (.update id rules)
  | .fetchInfo rule => addJob e (.fetchInfo rule)

/-- Takes over a step of an engine, and does what it wants to be carried out. -/
def withEngine (e : Nat) (step : Store → Engine → Engine.Step) : Act Unit := do
  let s ← get
  let (engine, tasks) := step s.store (s.engine e)
  set { s with engines := s.engines.insert e engine }
  tasks.forM (carryOut e)

/-! ## Searching -/

/-- What a search for some rules finds now, with the filter that it is meant for. -/
def search (filter : CandidateFilter) : Act Found := do
  let s ← get
  let programs :=
    if s.around.searchFails then .error (.outside "epg offline")
    else .ok (s.around.catalog.search (.forRules filter.rules filter.now))
  return { filter, programs }

/-- Opens or closes the gate. An open gate lets all results through that it has held back. -/
def setGate (isOpen : Bool) : Act Unit := do
  let queue := (← get).around.gateQueue
  modify fun s => { s with around := { s.around with gateIsOpen := isOpen } }
  if isOpen then
    modify fun s => { s with around := { s.around with gateQueue := [] } }
    queue.forM fun n => do
      modifyJob n fun j => { j with isReleased := true }
      wake (.job n)

/-- Schedules what a search has found for an update. -/
def finishSearch (found : Found) : Act (Except Fault Nat) :=
  match found.programs with
  | .error fault => return .error fault
  | .ok programs => withStore (Expansion.apply found.filter programs)

/-- The programs that a rule would schedule. All updates under way are begun again. -/
def finishTrial (e : Nat) (rule : SeriesRule) (found : Found) :
    Act (Except Fault (List Program)) := do
  let s ← get
  let picked := found.programs.map (Expansion.trialPick s.store found.filter rule)
  withEngine e fun store engine => engine.restartAll store
  return picked

def storeInfo (e : Nat) (rule : SeriesRule) : Act Unit := do
  let s ← get
  unless s.around.infoFails do
    if let some info := s.around.catalog.show? rule.seriesKey then
      if let some current := s.store.rule? rule.id then
        match ← withStore (Store.updateRule (current.withInfo info)) with
        | .ok () => withEngine e fun _ engine => (engine.noteFetched info.seriesKey, [])
        | .error _ => return

/-! ## Turns of a job -/

def endJob (n : Nat) : Act Unit := modifyJob n fun j => { j with hasEnded := true }

def searchFor (s : Station) : JobKind → Option CandidateFilter
  | .update _ rules => some (.ofStore s.store rules [] s.now)
  | .fetchInfo _ => none
  | .expand rule => some (Expansion.trialFilter s.store rule s.now)

/-- What a job does with what its search has found. -/
def concludeJob (n : Nat) (j : Job) (found : Found) : Act Unit := do
  endJob n
  match j.kind with
  | .update id _ =>
    discard (finishSearch found)
    withEngine j.engine fun _ engine => (engine.complete id, [])
  | .fetchInfo _ => return
  | .expand rule =>
    let picked ← finishTrial j.engine rule found
    modify fun s => { s with trials := s.trials ++ [picked.toOption.getD []] }

def beginJob (n : Nat) (j : Job) : Act Unit := do
  let s ← get
  match s.searchFor j.kind with
  | some filter =>
    let found ← search filter
    if s.around.gateIsOpen then concludeJob n j found
    else
      modifyJob n fun j => { j with held := some found }
      modify fun s =>
        { s with around := { s.around with gateQueue := s.around.gateQueue ++ [n] } }
  | none =>
    endJob n
    match j.kind with
    | .fetchInfo rule => storeInfo j.engine rule
    | _ => return

/-- A rule can only be tried when the schedules are loaded. -/
def isTooEarly (s : Station) (j : Job) : Bool := j.kind.isTrial && !s.store.isLoaded

def runJob (n : Nat) : Act Unit := do
  let s ← get
  if let some j := s.jobs[n]? then
    unless j.hasEnded do
      if j.isCancelled then endJob n
      else
        match j.held with
        | some found => if j.isReleased then concludeJob n j found
        | none => if s.isTooEarly j then endJob n else beginJob n j

/-! ## Listeners of the engines -/

def modifyEngineListener (n : Nat) (f : EngineListener → EngineListener) : Act Unit :=
  modify fun s => { s with engineListeners := s.engineListeners.modify n f }

def engineLoop (n : Nat) (l : EngineListener) : Nat → Act Unit
  | 0 => return
  | bound + 1 => do
    match ← receive l.listener with
    | .event event =>
      withEngine l.engine fun store e => e.handle store event
      engineLoop n l bound
    | .missed _ =>
      withEngine l.engine fun store e => e.refreshAll store
      engineLoop n l bound
    | .nothing => listen (.listener n)
    | .gone => modifyEngineListener n fun l => { l with hasEnded := true }

def runEngineListener (n : Nat) : Act Unit := do
  if let some l := (← get).engineListeners[n]? then
    unless l.hasEnded do
      stopListening (.listener n)
      if l.isCancelled then
        leave l.listener
        modifyEngineListener n fun l => { l with hasEnded := true }
      else engineLoop n l patience

/-- Starts an engine. It counts as started even if it was started too early. -/
def startEngine (e : Nat) : Act (Except Fault Unit) := do
  let s ← get
  let engine := s.engine e
  if engine.isStarted then return .ok ()
  withEngine e fun _ engine => ({ engine with isStarted := true }, [])
  if !s.store.isLoaded then return .error Engine.startedTooEarly
  let listener ← subscribe
  let n := fresh s.engineListeners
  modify fun s =>
    { s with engineListeners := s.engineListeners.insert n { engine := e, listener } }
  wake (.listener n)
  withEngine e fun store engine => engine.enterEra store
  return .ok ()

def stopEngine (e : Nat) : Act Unit := do
  let s ← get
  let engine := s.engine e
  if engine.isStarted then
    withEngine e fun _ engine => engine.stop
    callOffJobs fun j => j.engine == e && j.era == engine.era && !j.kind.isTrial
    let listeners := s.engineListeners.toList.filter fun (_, l) => l.engine == e
    listeners.forM fun (n, _) => do
      modifyEngineListener n fun l => { l with isCancelled := true }
      wake (.listener n)

end Station

end Timeshift
