import Mathlib.Logic.Function.Basic
import Mathlib.Logic.Relation
import MarkerBus.Proofs.Log.Lines

namespace MarkerBus.Log

/-! What events do to the log files that are alive.

A desk is the journal, the log file of each holder, and the outlet: the holder
whose file lines go to.  The outlet is not stored anywhere; it is read off what
was done.  Opening a file and rotating it make its holder the outlet, and giving
up any file leaves none.  Every event is a few steps of a desk, so what all steps
preserve holds after every run.
-/

variable {α : Type} {session after : Session} {journal : Journal}
  {held : Holder → Option RotatingFile} {outlet? : Option Holder} {holder : Holder}
  {file : RotatingFile} {setup : Setup} {name : String}

structure Desk where
  journal : Journal
  held : Holder → Option RotatingFile
  outlet? : Option Holder

namespace Desk

/-- Rotation that cannot open the new file has given up the old one, unless it was
going to empty it. -/
def outletRotated (file : RotatingFile) (journal : Journal) (holder : Holder)
    (outlet? : Option Holder) : Option Holder :=
  match (file.rotate journal).result with
  | .ok () => some holder
  | .error _ => if file.policy.maxFiles = 0 then outlet? else none

def outletChecked (file : RotatingFile) (journal : Journal) (holder : Holder)
    (outlet? : Option Holder) : Option Holder :=
  if file.isDue journal.files then outletRotated file journal holder outlet? else outlet?

def outletElapsed (file : RotatingFile) (journal : Journal) (holder : Holder)
    (outlet? : Option Holder) : Option Holder :=
  if file.policy.automatic ∧ file.untilCheck ≤ 1 then outletChecked file journal holder outlet?
  else outlet?

inductive Step : Desk → Desk → Prop where
  | speaks {desk : Desk} {lines : List String} {after : Journal}
      (said : Says desk.journal lines after) : Step desk { desk with journal := after }
  /-- The console may be told something meanwhile. -/
  | settles {desk : Desk} {after : Journal} (target : after.target? = desk.journal.target?)
      (files : after.files = desk.journal.files) : Step desk { desk with journal := after }
  | opens {desk : Desk} {holder : Holder} {directory : String} {policy : RotationPolicy}
      {file : RotatingFile} {after : Journal} (free : desk.held holder = none)
      (created : RotatingFile.create directory policy desk.journal = (.ok file, after)) :
      Step desk ⟨after, Function.update desk.held holder (some file), some holder⟩
  | refuses {desk : Desk} {directory : String} {policy : RotationPolicy} {error : FileError}
      {after : Journal}
      (refused : RotatingFile.create directory policy desk.journal = (.error error, after)) :
      Step desk { desk with journal := after }
  | rotates {desk : Desk} {holder : Holder} {file : RotatingFile}
      (holds : desk.held holder = some file) :
      Step desk ⟨(file.rotate desk.journal).journal,
        Function.update desk.held holder (some (file.rotate desk.journal).file),
        outletRotated file desk.journal holder desk.outlet?⟩
  | waits {desk : Desk} {holder : Holder} {file : RotatingFile}
      (holds : desk.held holder = some file) (untilCheck : Nat) :
      Step desk { desk with
        held := Function.update desk.held holder (some { file with untilCheck }) }
  | closes {desk : Desk} {holder : Holder} {file : RotatingFile}
      (holds : desk.held holder = some file) :
      Step desk ⟨file.close desk.journal, Function.update desk.held holder none, none⟩
  | silences {desk : Desk} :
      Step desk { desk with journal := { desk.journal with target? := none }, outlet? := none }

def Leads : Desk → Desk → Prop :=
  Relation.ReflTransGen Step

namespace Leads

variable {desk middle after : Desk}

theorem refl (desk : Desk) : Leads desk desk :=
  Relation.ReflTransGen.refl

theorem single (step : Step desk after) : Leads desk after :=
  Relation.ReflTransGen.single step

theorem trans (first : Leads desk middle) (second : Leads middle after) : Leads desk after :=
  Relation.ReflTransGen.trans first second

/-- What every step preserves holds wherever steps lead. -/
theorem preserves (Invariant : Desk → Prop)
    (preserved : ∀ {desk after : Desk}, Step desk after → Invariant desk → Invariant after)
    (leads : Leads desk after) (initially : Invariant desk) : Invariant after := by
  induction leads with
  | refl => exact initially
  | tail _ step ih => exact preserved step ih

end Leads

end Desk

namespace Session

theorem get?_insert (known : Named α) (name : String) (value : α) :
    (known.insert name value).get? = Function.update known.get? name (some value) := by
  funext other
  by_cases same : other = name
  · rw [same, Named.get?_insert_self, Function.update_self]
  · rw [Named.get?_insert_of_ne known same, Function.update_of_ne same]

theorem get?_erase (known : Named α) (name : String) :
    (known.erase name).get? = Function.update known.get? name none := by
  funext other
  by_cases same : other = name
  · rw [same, Named.get?_erase_self, Function.update_self]
  · rw [Named.get?_erase_of_ne known same, Function.update_of_ne same]

def fileOf (session : Session) : Holder → Option RotatingFile
  | .file name => session.files.get? name
  | .setup name => (session.setups.get? name).bind (·.file?)
  | .guard name => (session.guards.get? name).bind (·.setup.file?)

/-- Is something alive under this name, with a log file or without one? -/
def knows (session : Session) : Holder → Bool
  | .file name => (session.files.get? name).isSome
  | .setup name => (session.setups.get? name).isSome
  | .guard name => (session.guards.get? name).isSome

def desk (session : Session) (outlet? : Option Holder) : Desk :=
  ⟨session.journal, session.fileOf, outlet?⟩

theorem fileOf_congr (files : after.files = session.files) (setups : after.setups = session.setups)
    (guards : after.guards = session.guards) : after.fileOf = session.fileOf := by
  funext holder
  cases holder with
  | file name => rw [fileOf, fileOf, files]
  | setup name => rw [fileOf, fileOf, setups]
  | guard name => rw [fileOf, fileOf, guards]

theorem fileOf_files {file? : Option RotatingFile}
    (changed : after.files.get? = Function.update session.files.get? name file?)
    (setups : after.setups = session.setups) (guards : after.guards = session.guards) :
    after.fileOf = Function.update session.fileOf (.file name) file? := by
  funext holder
  cases holder with
  | file other =>
      rw [fileOf, changed]
      by_cases same : other = name
      · subst same
        rw [Function.update_self, Function.update_self]
      · rw [Function.update_of_ne same, Function.update_of_ne (by simpa using same)]
        rfl
  | setup other => rw [Function.update_of_ne (by simp), fileOf, fileOf, setups]
  | guard other => rw [Function.update_of_ne (by simp), fileOf, fileOf, guards]

theorem fileOf_setups {setup? : Option Setup} {file? : Option RotatingFile}
    (changed : after.setups.get? = Function.update session.setups.get? name setup?)
    (given : setup?.bind (·.file?) = file?)
    (files : after.files = session.files) (guards : after.guards = session.guards) :
    after.fileOf = Function.update session.fileOf (.setup name) file? := by
  subst given
  funext holder
  cases holder with
  | setup other =>
      rw [fileOf, changed]
      by_cases same : other = name
      · subst same
        rw [Function.update_self, Function.update_self]
      · rw [Function.update_of_ne same, Function.update_of_ne (by simpa using same)]
        rfl
  | file other => rw [Function.update_of_ne (by simp), fileOf, fileOf, files]
  | guard other => rw [Function.update_of_ne (by simp), fileOf, fileOf, guards]

theorem fileOf_guards {guard? : Option Guard} {file? : Option RotatingFile}
    (changed : after.guards.get? = Function.update session.guards.get? name guard?)
    (given : guard?.bind (·.setup.file?) = file?)
    (files : after.files = session.files) (setups : after.setups = session.setups) :
    after.fileOf = Function.update session.fileOf (.guard name) file? := by
  subst given
  funext holder
  cases holder with
  | guard other =>
      rw [fileOf, changed]
      by_cases same : other = name
      · subst same
        rw [Function.update_self, Function.update_self]
      · rw [Function.update_of_ne same, Function.update_of_ne (by simpa using same)]
        rfl
  | file other => rw [Function.update_of_ne (by simp), fileOf, fileOf, files]
  | setup other => rw [Function.update_of_ne (by simp), fileOf, fileOf, setups]

/-- Whatever is alive under a name is given up before something else takes its place. -/
def outletClosed (session : Session) (outlet? : Option Holder) (holder : Holder) : Option Holder :=
  if session.knows holder then none else outlet?

/-- The outlet after something was done with the file of a holder, if it has one. -/
def outletOf (session : Session) (outlet? : Option Holder) (holder : Holder)
    (changed : RotatingFile → Journal → Holder → Option Holder → Option Holder) : Option Holder :=
  match session.fileOf holder with
  | none => outlet?
  | some file => changed file session.journal holder outlet?

def outletElapsed (session : Session) (outlet? : Option Holder) : List Holder → Option Holder
  | [] => outlet?
  | holder :: rest =>
      (session.elapseFor holder).outletElapsed
        (session.outletOf outlet? holder Desk.outletElapsed) rest

/-- The holder whose file lines go to after an event, from the one before. -/
def outletAfter (session : Session) (outlet? : Option Holder) (event : Event) : Option Holder :=
  let opened (holder : Holder) : Option Holder :=
    match (session.perform event).1 with
    | .opened (some _) => some holder
    | _ => session.outletClosed outlet? holder
  match event with
  | .openFile name .. => opened (.file name)
  | .startSetup name .. => opened (.setup name)
  | .startGuard name .. => opened (.guard name)
  | .closeFile name => session.outletClosed outlet? (.file name)
  | .closeSetup name | .stopSetup name => session.outletClosed outlet? (.setup name)
  | .closeGuard name => session.outletClosed outlet? (.guard name)
  | .rotateFile name => session.outletOf outlet? (.file name) Desk.outletRotated
  | .rotateSetup name => session.outletOf outlet? (.setup name) Desk.outletRotated
  | .rotateFileIfDue name => session.outletOf outlet? (.file name) Desk.outletChecked
  | .elapse => session.outletElapsed outlet? session.holders
  | _ => outlet?

def outlet (session : Session) (outlet? : Option Holder) : List Event → Option Holder
  | [] => outlet?
  | event :: rest =>
      (session.perform event).2.outlet (session.outletAfter outlet? event) rest

end Session

namespace Desk

theorem held_eq_update {file? : Option RotatingFile} (holds : held holder = file?) :
    Function.update held holder file? = held := by
  rw [← holds, Function.update_eq_self]

theorem leads_rotateIfDue (holds : held holder = some file) :
    Leads ⟨journal, held, outlet?⟩ ⟨(file.rotateIfDue journal).journal,
      Function.update held holder (some (file.rotateIfDue journal).file),
      outletChecked file journal holder outlet?⟩ := by
  unfold RotatingFile.rotateIfDue outletChecked
  split
  · exact .single (.rotates holds)
  · rw [held_eq_update holds]
    exact .refl _

theorem leads_check (holds : held holder = some file) :
    Leads ⟨journal, held, outlet?⟩ ⟨(file.check journal).2,
      Function.update held holder (some (file.check journal).1),
      outletChecked file journal holder outlet?⟩ := by
  have checked : Leads ⟨journal, held, outlet?⟩ _ := leads_rotateIfDue holds
  unfold RotatingFile.check
  dsimp only
  split
  · exact checked
  · exact checked.trans (.single (.settles rfl rfl))

theorem leads_waits (file : RotatingFile) (untilCheck : Nat) :
    Leads ⟨journal, Function.update held holder (some file), outlet?⟩
      ⟨journal, Function.update held holder (some { file with untilCheck }), outlet?⟩ := by
  have waited : Leads ⟨journal, Function.update held holder (some file), outlet?⟩ _ :=
    .single (.waits (Function.update_self ..) untilCheck)
  rwa [Function.update_idem] at waited

theorem leads_elapse (holds : held holder = some file) :
    Leads ⟨journal, held, outlet?⟩ ⟨(file.elapse journal).2,
      Function.update held holder (some (file.elapse journal).1),
      outletElapsed file journal holder outlet?⟩ := by
  unfold RotatingFile.elapse outletElapsed
  cases automatic : file.policy.automatic with
  | false =>
      rw [if_pos (by simp), if_neg (by simp), held_eq_update holds]
      exact .refl _
  | true =>
      by_cases early : 1 < file.untilCheck
      · rw [if_neg (by simp), if_pos early, if_neg (by omega)]
        exact .single (.waits holds _)
      · rw [if_neg (by simp), if_neg early, if_pos ⟨rfl, by omega⟩]
        exact (leads_check holds).trans (leads_waits _ _)

theorem leads_create (free : held holder = none) (directory : String) (policy : RotationPolicy) :
    Leads ⟨journal, held, outlet?⟩ (match RotatingFile.create directory policy journal with
      | (.ok file, after) => ⟨after, Function.update held holder (some file), some holder⟩
      | (.error _, after) => ⟨after, held, outlet?⟩) := by
  split
  · exact .single (.opens free ‹_›)
  · exact .single (.refuses ‹_›)

theorem files_adopt (journal : Journal) (environment : Environment) :
    (journal.adopt environment).target? = journal.target? ∧
      (journal.adopt environment).files = journal.files := by
  unfold Journal.adopt Journal.setThreshold
  split
  · exact ⟨rfl, rfl⟩
  · split <;> rename_i told <;> split at told <;> cases told <;> exact ⟨rfl, rfl⟩

theorem leads_start (free : held holder = none) (settings : Settings)
    (environment : Environment) :
    Leads ⟨journal, held, outlet?⟩ (match Setup.start settings environment journal with
      | (.ok setup, after) => ⟨after, Function.update held holder setup.file?,
          if setup.file?.isSome then some holder else outlet?⟩
      | (.error _, after) => ⟨after, held, outlet?⟩) := by
  have adopted := files_adopt { journal with threshold := settings.initial } environment
  have settled : Leads ⟨journal, held, outlet?⟩
      ⟨{ journal with threshold := settings.initial }.adopt environment, held, outlet?⟩ :=
    .single (.settles adopted.1 adopted.2)
  unfold Setup.start
  cases toFile : settings.toFile with
  | false =>
      simpa [held_eq_update free] using settled
  | true =>
      refine settled.trans ?_
      have created : Leads
          ⟨{ journal with threshold := settings.initial }.adopt environment, held, outlet?⟩ _ :=
        leads_create free settings.directory settings.policy
      rw [if_pos rfl]
      generalize RotatingFile.create settings.directory settings.policy _ = made at created ⊢
      obtain ⟨_ | file, after⟩ := made
      · exact created
      · exact created

theorem leads_stop (holds : held holder = setup.file?) :
    Leads ⟨journal, held, outlet?⟩
      ⟨(setup.stop journal).2, Function.update held holder none, none⟩ := by
  unfold Setup.stop
  cases found : setup.file? with
  | none =>
      rw [held_eq_update (holds.trans found)]
      exact .single .silences
  | some file => exact (Leads.single (.closes (holds.trans found))).trans (.single .silences)

theorem leads_rotateSetup (holds : held holder = setup.file?) :
    Leads ⟨journal, held, outlet?⟩ ⟨(setup.rotate journal).2.2,
      Function.update held holder (setup.rotate journal).2.1.file?,
      match setup.file? with
      | none => outlet?
      | some file => outletRotated file journal holder outlet?⟩ := by
  unfold Setup.rotate
  cases found : setup.file? with
  | none =>
      dsimp only
      rw [found, held_eq_update (holds.trans found)]
      exact .refl _
  | some file => exact .single (.rotates (holds.trans found))

theorem leads_elapseSetup (holds : held holder = setup.file?) :
    Leads ⟨journal, held, outlet?⟩ ⟨(setup.elapse journal).2,
      Function.update held holder (setup.elapse journal).1.file?,
      match setup.file? with
      | none => outlet?
      | some file => outletElapsed file journal holder outlet?⟩ := by
  unfold Setup.elapse
  cases found : setup.file? with
  | none =>
      dsimp only
      rw [found, held_eq_update (holds.trans found)]
      exact .refl _
  | some file => exact leads_elapse (holds.trans found)

end Desk

open Desk

namespace Session

/-- A session is where steps lead if its journal and the files of its holders are. -/
theorem leads_desk {before : Desk} (leads : Leads before ⟨after.journal, held, outlet?⟩)
    (same : after.fileOf = held) : Leads before (after.desk outlet?) := by
  rw [desk, same]
  exact leads

theorem leads_closeFile (name : String) : Leads (session.desk outlet?)
    ((session.closeFile name).desk (session.outletClosed outlet? (.file name))) := by
  cases known : session.files.get? name with
  | none =>
      simp only [closeFile, outletClosed, knows, known]
      exact .refl _
  | some file =>
      simp only [closeFile, outletClosed, knows, known, Option.isSome_some, if_true]
      have holds : (session.desk outlet?).held (.file name) = some file := known
      exact leads_desk (.single (.closes holds)) (fileOf_files (get?_erase _ _) rfl rfl)

theorem leads_closeSetup (name : String) : Leads (session.desk outlet?)
    ((session.closeSetup name).desk (session.outletClosed outlet? (.setup name))) := by
  cases known : session.setups.get? name with
  | none =>
      simp only [closeSetup, outletClosed, knows, known]
      exact .refl _
  | some setup =>
      have holds : session.fileOf (.setup name) = setup.file? := by rw [fileOf, known]; rfl
      simp only [closeSetup, outletClosed, knows, known, Option.isSome_some, if_true]
      exact leads_desk (leads_stop holds) (fileOf_setups (get?_erase _ _) rfl rfl rfl)

theorem leads_closeGuard (name : String) : Leads (session.desk outlet?)
    ((session.closeGuard name).desk (session.outletClosed outlet? (.guard name))) := by
  cases known : session.guards.get? name with
  | none =>
      simp only [closeGuard, outletClosed, knows, known]
      exact .refl _
  | some guard =>
      have holds : session.fileOf (.guard name) = guard.setup.file? := by rw [fileOf, known]; rfl
      simp only [closeGuard, outletClosed, knows, known, Option.isSome_some, if_true]
      exact leads_desk ((leads_stop holds).trans (.single (.settles rfl rfl)))
        (fileOf_guards (get?_erase _ _) rfl rfl rfl)

theorem leads_openFile (name directory : String) (policy : RotationPolicy) :
    Leads (session.desk outlet?) ((session.perform (.openFile name directory policy)).2.desk
      (session.outletAfter outlet? (.openFile name directory policy))) := by
  have closed : (session.closeFile name).fileOf (.file name) = none := by
    unfold closeFile
    split
    · exact ‹_›
    · exact Named.get?_erase_self _
  refine (leads_closeFile name).trans ?_
  have created : Leads
      ((session.closeFile name).desk (session.outletClosed outlet? (.file name))) _ :=
    leads_create closed directory policy
  simp only [outletAfter, perform, openFile]
  generalize RotatingFile.create directory policy _ = made at created ⊢
  obtain ⟨_ | file, after⟩ := made
  · exact created
  · exact leads_desk created (fileOf_files (get?_insert _ _ _) rfl rfl)

theorem leads_startSetup (name : String) (settings : Settings) (environment : Environment) :
    Leads (session.desk outlet?) ((session.perform (.startSetup name settings environment)).2.desk
      (session.outletAfter outlet? (.startSetup name settings environment))) := by
  have closed : (session.closeSetup name).fileOf (.setup name) = none := by
    unfold closeSetup
    split
    · simp only [fileOf, ‹session.setups.get? name = none›, Option.bind_none]
    · simp only [fileOf, Named.get?_erase_self, Option.bind_none]
  refine (leads_closeSetup name).trans ?_
  have started : Leads
      ((session.closeSetup name).desk (session.outletClosed outlet? (.setup name))) _ :=
    leads_start closed settings environment
  simp only [outletAfter, perform, startSetup]
  generalize Setup.start settings environment _ = made at started ⊢
  obtain ⟨_ | ⟨_ | file⟩, after⟩ := made
  · exact started
  · exact leads_desk started (fileOf_setups (get?_insert _ _ _) rfl rfl rfl)
  · exact leads_desk started (fileOf_setups (get?_insert _ _ _) rfl rfl rfl)

theorem leads_startGuard (name : String) (settings : Settings) (environment : Environment) :
    Leads (session.desk outlet?) ((session.perform (.startGuard name settings environment)).2.desk
      (session.outletAfter outlet? (.startGuard name settings environment))) := by
  have closed : (session.closeGuard name).fileOf (.guard name) = none := by
    unfold closeGuard
    split
    · simp only [fileOf, ‹session.guards.get? name = none›, Option.bind_none]
    · simp only [fileOf, Named.get?_erase_self, Option.bind_none]
  refine (leads_closeGuard name).trans ?_
  have started : Leads
      ((session.closeGuard name).desk (session.outletClosed outlet? (.guard name))) _ :=
    leads_start closed settings environment
  simp only [outletAfter, perform, startGuard, Guard.start]
  generalize Setup.start settings environment _ = made at started ⊢
  obtain ⟨_ | ⟨_ | file⟩, after⟩ := made
  · exact started
  · exact leads_desk started (fileOf_guards (get?_insert _ _ _) rfl rfl rfl)
  · exact leads_desk started (fileOf_guards (get?_insert _ _ _) rfl rfl rfl)

theorem leads_stopSetup (name : String) : Leads (session.desk outlet?)
    ((session.perform (.stopSetup name)).2.desk
      (session.outletAfter outlet? (.stopSetup name))) := by
  simp only [perform, outletAfter, stopSetup]
  cases known : session.setups.get? name with
  | none =>
      simp only [outletClosed, knows, known]
      exact .refl _
  | some setup =>
      have holds : session.fileOf (.setup name) = setup.file? := by rw [fileOf, known]; rfl
      simp only [outletClosed, knows, known, Option.isSome_some, if_true]
      exact leads_desk (leads_stop holds) (fileOf_setups (get?_insert _ _ _) rfl rfl rfl)

theorem leads_rotateSetup (name : String) : Leads (session.desk outlet?)
    ((session.perform (.rotateSetup name)).2.desk
      (session.outletAfter outlet? (.rotateSetup name))) := by
  simp only [perform, outletAfter, rotateSetup, outletOf]
  cases known : session.setups.get? name with
  | none =>
      rw [fileOf, known]
      exact .refl _
  | some setup =>
      have holds : session.fileOf (.setup name) = setup.file? := by rw [fileOf, known]; rfl
      rw [holds]
      exact leads_desk (Desk.leads_rotateSetup holds)
        (fileOf_setups (get?_insert _ _ _) rfl rfl rfl)

/-- What is done with a file leads where it leads on the file's own. -/
theorem leads_onFile {operation : RotatingFile → Journal → FileOutcome α} {respond : α → Response}
    {changed : RotatingFile → Journal → Holder → Option Holder → Option Holder} (name : String)
    (leads : ∀ file, session.fileOf (.file name) = some file → Leads (session.desk outlet?)
      ⟨(operation file session.journal).journal,
        Function.update session.fileOf (.file name) (some (operation file session.journal).file),
        changed file session.journal (.file name) outlet?⟩) :
    Leads (session.desk outlet?) ((session.onFile name operation respond).2.desk
      (session.outletOf outlet? (.file name) changed)) := by
  simp only [onFile, outletOf]
  cases known : session.files.get? name with
  | none =>
      rw [fileOf, known]
      exact .refl _
  | some file =>
      have holds : session.fileOf (.file name) = some file := known
      rw [holds]
      exact leads_desk (leads file holds) (fileOf_files (get?_insert _ _ _) rfl rfl)

theorem leads_elapseFor (holder : Holder) : Leads (session.desk outlet?)
    ((session.elapseFor holder).desk (session.outletOf outlet? holder Desk.outletElapsed)) := by
  cases holder with
  | file name =>
      simp only [elapseFor, outletOf]
      cases known : session.files.get? name with
      | none =>
          rw [fileOf, known]
          exact .refl _
      | some file =>
          have holds : session.fileOf (.file name) = some file := known
          rw [holds]
          exact leads_desk (leads_elapse holds) (fileOf_files (get?_insert _ _ _) rfl rfl)
  | setup name =>
      simp only [elapseFor, outletOf]
      cases known : session.setups.get? name with
      | none =>
          rw [fileOf, known]
          exact .refl _
      | some setup =>
          have holds : session.fileOf (.setup name) = setup.file? := by rw [fileOf, known]; rfl
          rw [holds]
          exact leads_desk (leads_elapseSetup holds) (fileOf_setups (get?_insert _ _ _) rfl rfl rfl)
  | guard name =>
      simp only [elapseFor, outletOf]
      cases known : session.guards.get? name with
      | none =>
          rw [fileOf, known]
          exact .refl _
      | some guard =>
          have holds : session.fileOf (.guard name) = guard.setup.file? := by
            rw [fileOf, known]
            rfl
          rw [holds]
          exact leads_desk (leads_elapseSetup holds) (fileOf_guards (get?_insert _ _ _) rfl rfl rfl)

theorem leads_elapse (holders : List Holder) : Leads (session.desk outlet?)
    ((holders.foldl elapseFor session).desk (session.outletElapsed outlet? holders)) := by
  induction holders generalizing session outlet? with
  | nil => exact .refl _
  | cons holder rest ih => exact (leads_elapseFor holder).trans ih

theorem leads_of_speaks {event : Event} (speaks : event.Speaks) :
    Leads (session.desk outlet?) ((session.perform event).2.desk outlet?) := by
  obtain ⟨files, setups, guards⟩ := perform_of_speaks session speaks
  exact leads_desk (.single (.speaks (says_perform speaks))) (fileOf_congr files setups guards)

theorem leads_perform (event : Event) : Leads (session.desk outlet?)
    ((session.perform event).2.desk (session.outletAfter outlet? event)) := by
  cases event with
  | openFile name directory policy => exact leads_openFile name directory policy
  | rotateFile name => exact leads_onFile name fun _ holds => .single (.rotates holds)
  | rotateFileIfDue name => exact leads_onFile name fun _ holds => leads_rotateIfDue holds
  | closeFile name => exact leads_closeFile name
  | startSetup name settings environment => exact leads_startSetup name settings environment
  | stopSetup name => exact leads_stopSetup name
  | rotateSetup name => exact leads_rotateSetup name
  | closeSetup name => exact leads_closeSetup name
  | startGuard name settings environment => exact leads_startGuard name settings environment
  | closeGuard name => exact leads_closeGuard name
  | elapse => exact leads_elapse session.holders
  | adopt environment =>
      have adopted := files_adopt session.journal environment
      exact leads_desk (.single (.settles adopted.1 adopted.2)) rfl
  | start | write | finish | log | logIndented | stream | setLevel | flush | indent | dedent
  | setTee | setThreshold => exact leads_of_speaks trivial

theorem leads_run (events : List Event) : Leads (session.desk outlet?)
    ((session.run events).desk (session.outlet outlet? events)) := by
  induction events generalizing session outlet? with
  | nil => exact .refl _
  | cons event rest ih => exact (leads_perform event).trans ih

end Session

end MarkerBus.Log
