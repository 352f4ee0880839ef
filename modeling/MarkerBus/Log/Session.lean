import MarkerBus.Log.Setup
import MarkerBus.Named

namespace MarkerBus.Log

inductive Event where
  | start (statement : String) (level : Level)
  | write (statement : String) (pieces : List Piece)
  | finish (statement : String)
  | log (level : Level) (pieces : List Piece)
  | logIndented (level : Level) (pieces : List Piece)
  | stream (pieces : List Piece)
  | setLevel (level : Level)
  | flush
  | indent
  | dedent
  | setTee (installed : Bool)
  | setThreshold (text : String)
  | adopt (environment : Environment)
  | openFile (file directory : String) (policy : RotationPolicy)
  | rotateFile (file : String)
  | rotateFileIfDue (file : String)
  | closeFile (file : String)
  | startSetup (setup : String) (settings : Settings) (environment : Environment)
  | stopSetup (setup : String)
  | rotateSetup (setup : String)
  | closeSetup (setup : String)
  | startGuard (guard : String) (settings : Settings) (environment : Environment)
  | closeGuard (guard : String)
  /-- A millisecond passes, and with it the checks in the background that are due. -/
  | elapse
deriving Repr

inductive Response where
  | nothing
  | flag (value : Bool)
  | opened (path? : Option String)
  | failed (error : FileError)
  | unknown
deriving DecidableEq, Repr

/-- What a log file belongs to: nothing but its own name, a set-up, or a guard. -/
inductive Holder where
  | file (name : String)
  | setup (name : String)
  | guard (name : String)
deriving DecidableEq, Repr

structure Session where
  journal : Journal
  statements : Named Statement := {}
  files : Named RotatingFile := {}
  setups : Named Setup := {}
  guards : Named Guard := {}

namespace Session

def withJournal (session : Session) (change : Journal → Journal) : Response × Session :=
  (.nothing, { session with journal := change session.journal })

def finish (session : Session) (name : String) : Session :=
  match session.statements.get? name with
  | none => session
  | some statement =>
      { session with
        journal := statement.finish session.journal
        statements := session.statements.erase name }

def closeFile (session : Session) (name : String) : Session :=
  match session.files.get? name with
  | none => session
  | some file =>
      { session with
        journal := file.close session.journal
        files := session.files.erase name }

def closeSetup (session : Session) (name : String) : Session :=
  match session.setups.get? name with
  | none => session
  | some setup =>
      { session with
        journal := (setup.stop session.journal).2
        setups := session.setups.erase name }

def closeGuard (session : Session) (name : String) : Session :=
  match session.guards.get? name with
  | none => session
  | some guard =>
      { session with
        journal := guard.stop session.journal
        guards := session.guards.erase name }

/-- A new statement.  One of the same name is finished when the new one has
already begun. -/
def start (session : Session) (name : String) (level : Level) : Session :=
  let (statement, journal) := Statement.start session.journal level
  let session := { session with journal }.finish name
  { session with statements := session.statements.insert name statement }

def write (session : Session) (name : String) (pieces : List Piece) : Response × Session :=
  match session.statements.get? name with
  | none => (.unknown, session)
  | some statement =>
      let (statement, journal) := statement.streamAll session.journal pieces
      (.nothing, { session with journal, statements := session.statements.insert name statement })

def openFile (session : Session) (name directory : String) (policy : RotationPolicy)
    (startable : Bool := true) : Response × Session :=
  let session := session.closeFile name
  match RotatingFile.create directory policy session.journal startable with
  | (.error error, journal) => (.failed error, { session with journal })
  | (.ok file, journal) =>
      (.opened (some file.path), { session with journal, files := session.files.insert name file })

/-- Do something with a log file, and answer with what `respond` makes of it. -/
def onFile {α : Type} (session : Session) (name : String)
    (operation : RotatingFile → Journal → FileOutcome α) (respond : α → Response) :
    Response × Session :=
  match session.files.get? name with
  | none => (.unknown, session)
  | some file =>
      let outcome := operation file session.journal
      let response := match outcome.result with
        | .ok value => respond value
        | .error error => .failed error
      (response,
        { session with
          journal := outcome.journal
          files := session.files.insert name outcome.file })

def startSetup (session : Session) (name : String) (settings : Settings)
    (environment : Environment) (startable : Bool := true) : Response × Session :=
  let session := session.closeSetup name
  match Setup.start settings environment session.journal startable with
  | (.error error, journal) => (.failed error, { session with journal })
  | (.ok setup, journal) =>
      (.opened (setup.file?.map (·.path)),
        { session with journal, setups := session.setups.insert name setup })

def stopSetup (session : Session) (name : String) : Response × Session :=
  match session.setups.get? name with
  | none => (.unknown, session)
  | some setup =>
      let (setup, journal) := setup.stop session.journal
      (.flag setup.file?.isNone,
        { session with journal, setups := session.setups.insert name setup })

def rotateSetup (session : Session) (name : String) : Response × Session :=
  match session.setups.get? name with
  | none => (.unknown, session)
  | some setup =>
      let (result, setup, journal) := setup.rotate session.journal
      let response := match result with
        | .ok () => .nothing
        | .error error => .failed error
      (response, { session with journal, setups := session.setups.insert name setup })

def startGuard (session : Session) (name : String) (settings : Settings)
    (environment : Environment) (startable : Bool := true) : Response × Session :=
  let session := session.closeGuard name
  match Guard.start settings environment session.journal startable with
  | (.error error, journal) => (.failed error, { session with journal })
  | (.ok guard, journal) =>
      (.opened (guard.setup.file?.map (·.path)),
        { session with journal, guards := session.guards.insert name guard })

/-- The holders of all log files, the one whose file was opened first in front. -/
def holders (session : Session) : List Holder :=
  let held (name : String) (holder : String → Holder) (file : RotatingFile) : Nat × Holder :=
    (file.seniority, holder name)
  let files := session.files.entries.map fun (name, file) => held name .file file
  let setups := session.setups.entries.filterMap fun (name, setup) =>
    setup.file?.map (held name .setup)
  let guards := session.guards.entries.filterMap fun (name, guard) =>
    guard.setup.file?.map (held name .guard)
  let inOrder := (files ++ setups ++ guards).mergeSort fun first second => first.1 ≤ second.1
  inOrder.map (·.2)

def elapseFor (session : Session) : Holder → Session
  | .file name =>
      match session.files.get? name with
      | none => session
      | some file =>
          let (file, journal) := file.elapse session.journal
          { session with journal, files := session.files.insert name file }
  | .setup name =>
      match session.setups.get? name with
      | none => session
      | some setup =>
          let (setup, journal) := setup.elapse session.journal
          { session with journal, setups := session.setups.insert name setup }
  | .guard name =>
      match session.guards.get? name with
      | none => session
      | some guard =>
          let (guard, journal) := guard.elapse session.journal
          { session with journal, guards := session.guards.insert name guard }

def elapse (session : Session) : Session :=
  session.holders.foldl elapseFor session

/-- Carry out an event, at a moment when a thread can be started or when none can. -/
def perform (session : Session) (event : Event) (startable : Bool := true) :
    Response × Session :=
  match event with
  | .start name level => (.nothing, session.start name level)
  | .write name pieces => session.write name pieces
  | .finish name => (.nothing, session.finish name)
  | .log level pieces => session.withJournal (·.log level pieces)
  | .logIndented level pieces => session.withJournal (·.logIndented level pieces)
  | .stream pieces => session.withJournal (·.streamAll pieces)
  | .setLevel level => session.withJournal (·.setLevel level)
  | .flush => session.withJournal (·.flush)
  | .indent => session.withJournal (·.indent)
  | .dedent => session.withJournal (·.dedent)
  | .setTee installed => session.withJournal ({ · with teeing := installed })
  | .setThreshold text =>
      let (accepted, journal) := session.journal.setThreshold text
      (.flag accepted, { session with journal })
  | .adopt environment => session.withJournal (·.adopt environment)
  | .openFile name directory policy => session.openFile name directory policy startable
  | .rotateFile name => session.onFile name RotatingFile.rotate fun () => .nothing
  | .rotateFileIfDue name => session.onFile name RotatingFile.rotateIfDue .flag
  | .closeFile name => (.nothing, session.closeFile name)
  | .startSetup name settings environment =>
      session.startSetup name settings environment startable
  | .stopSetup name => session.stopSetup name
  | .rotateSetup name => session.rotateSetup name
  | .closeSetup name => (.nothing, session.closeSetup name)
  | .startGuard name settings environment =>
      session.startGuard name settings environment startable
  | .closeGuard name => (.nothing, session.closeGuard name)
  | .elapse => (.nothing, session.elapse)

def run (session : Session) : List Event → Session
  | [] => session
  | event :: rest => (session.perform event).2.run rest

end Session

end MarkerBus.Log
