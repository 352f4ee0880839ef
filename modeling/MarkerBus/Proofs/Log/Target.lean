import MarkerBus.Proofs.Log.Setup

namespace MarkerBus.Log

/-! The journal's target, whatever happens to the files and the threads meanwhile.

A log file whose checks cannot be started takes a handle, directs the journal to it
and is not there.  Such a handle is stranded: it stays open, and nobody can close
it.  All other handles are closed or some holder's.
-/

variable {session : Session} {journal : Journal} {file : RotatingFile} {mode : FileTree.Mode}
  {directory path : String} {policy : RotationPolicy} {event : Event} {first : Nat}
  {already : List Nat}

namespace RotatingFile

/-- Without a thread a log file is opened all the same, and is given up if it should
have had checks. -/
theorem create_unstartable (directory : String) (policy : RotationPolicy) (journal : Journal) :
    create directory policy journal false = create directory policy journal ∨
      ∃ path after, create directory policy journal false = (.error .cannotCheck, after) ∧
        Acquires journal path none after := by
  rcases opened : openIn directory policy journal with ⟨error | file, after⟩
  · simp [create, opened]
  · cases automatic : policy.automatic with
    | false => simp [create, opened, automatic]
    | true =>
        have created : create directory policy journal = (.ok file, after) := by
          rw [create_startable, opened]
        obtain ⟨_, _, acquires⟩ := create_ok created
        exact .inr ⟨file.path, after, by simp [create, opened, automatic], acquires⟩

theorem reopen_checked : (file.reopen mode journal).result ≠ .error .cannotCheck := by
  unfold reopen
  split <;> simp

theorem rotate_checked : (file.rotate journal).result ≠ .error .cannotCheck := by
  unfold rotate
  split
  · exact reopen_checked
  · exact reopen_checked

theorem rotateIfDue_checked : (file.rotateIfDue journal).result ≠ .error .cannotCheck := by
  unfold rotateIfDue
  split
  · have rotated : (file.rotate journal).result ≠ .error .cannotCheck := rotate_checked
    dsimp only
    cases result : (file.rotate journal).result with
    | ok => simp [Except.map]
    | error error => simpa [Except.map, result] using rotated
  · simp

theorem Refused.checked {files : FileTree} : ¬ Refused files directory .cannotCheck :=
  nofun

end RotatingFile

theorem Setup.start_unstartable (settings : Settings) (environment : Environment)
    (journal : Journal) :
    start settings environment journal false = start settings environment journal ∨
      ∃ path after, start settings environment journal false = (.error .cannotCheck, after) ∧
        Acquires journal path none after := by
  have files := (Desk.files_adopt { journal with threshold := settings.initial } environment).2
  unfold start
  dsimp only at files ⊢
  generalize { journal with threshold := settings.initial }.adopt environment = adopted at *
  have created := RotatingFile.create_unstartable settings.directory settings.policy adopted
  cases settings.toFile with
  | false => exact .inl rfl
  | true =>
      rcases created with same | ⟨path, after, refused, acquires⟩
      · rw [same]
        exact .inl rfl
      · simp only [refused]
        exact .inr ⟨path, after, rfl, acquires.of_same (files ▸ .refl adopted.files)⟩

theorem Setup.rotate_checked (setup : Setup) : (setup.rotate journal).1 ≠ .error .cannotCheck := by
  unfold Setup.rotate
  split
  · simp
  · exact RotatingFile.rotate_checked

theorem Setup.opened_stop (setup : Setup) (journal : Journal) :
    (setup.stop journal).2.files.opened = journal.files.opened := by
  unfold Setup.stop
  cases setup.file? with
  | none => rfl
  | some file => exact RotatingFile.drops_close.opened

theorem Starts.checked {settings : Settings} {environment : Environment} {before after : Journal}
    {response : Response} (starts : Starts settings environment before response after) :
    response ≠ .failed .cannotCheck := by
  rintro rfl
  cases starts with
  | fails toFile refused => exact RotatingFile.Refused.checked refused

namespace Session

theorem onFile_checked {α : Type} {operation : RotatingFile → Journal → FileOutcome α}
    {respond : α → Response} (name : String)
    (checked : ∀ file journal, (operation file journal).result ≠ .error .cannotCheck)
    (responds : ∀ value, respond value ≠ .failed .cannotCheck) :
    (session.onFile name operation respond).1 ≠ .failed .cannotCheck := by
  unfold onFile
  split
  · simp
  · rename_i file _
    have kept := checked file session.journal
    dsimp only
    split
    · exact responds _
    · simp_all

/-- Where threads can be started, nothing fails for the want of one. -/
theorem perform_checked (session : Session) (event : Event) :
    (session.perform event).1 ≠ .failed .cannotCheck := by
  cases event with
  | write name pieces =>
      simp only [perform, write]
      split <;> simp
  | openFile name directory policy =>
      simp only [perform, openFile]
      rcases made : RotatingFile.create directory policy (session.closeFile name).journal with
        ⟨error | file, after⟩
      · rintro ⟨⟩
        exact RotatingFile.Refused.checked
          ((RotatingFile.create_error_iff directory policy).mp (congrArg Prod.fst made))
      · simp
  | rotateFile name =>
      exact onFile_checked name (fun _ _ => RotatingFile.rotate_checked) (by simp)
  | rotateFileIfDue name =>
      exact onFile_checked name (fun _ _ => RotatingFile.rotateIfDue_checked) (by simp)
  | startSetup name settings environment =>
      exact (starts_setup session name settings environment).checked
  | stopSetup name =>
      simp only [perform, stopSetup]
      split <;> simp
  | rotateSetup name =>
      simp only [perform, rotateSetup]
      split
      · simp
      · rename_i setup _
        have rotated : (setup.rotate session.journal).1 ≠ .error .cannotCheck := setup.rotate_checked
        split <;> simp_all
  | startGuard name settings environment =>
      exact (starts_guard session name settings environment).checked
  | start | finish | log | logIndented | stream | setLevel | flush | indent | dedent | setTee
  | setThreshold | adopt | closeFile | closeSetup | closeGuard | elapse =>
      simp [perform, withJournal]

theorem opened_closeFile (session : Session) (name : String) :
    (session.closeFile name).journal.files.opened = session.journal.files.opened := by
  unfold closeFile
  split
  · rfl
  · exact RotatingFile.drops_close.opened

theorem opened_closeSetup (session : Session) (name : String) :
    (session.closeSetup name).journal.files.opened = session.journal.files.opened := by
  unfold closeSetup
  split
  · rfl
  · exact Setup.opened_stop _ _

theorem opened_closeGuard (session : Session) (name : String) :
    (session.closeGuard name).journal.files.opened = session.journal.files.opened := by
  unfold closeGuard
  split
  · rfl
  · exact Setup.opened_stop _ _

/-- What had the name was given up, and the next handle was taken for nobody. -/
def Strands (before after : Session) : Prop :=
  ∃ (middle : Desk) (path : String), Desk.Leads (before.desk none) middle ∧
    middle.held = after.fileOf ∧ middle.journal.files.opened = before.journal.files.opened ∧
    Acquires middle.journal path none after.journal

/-- Without a thread an event is what it always is, but for starts that strand a handle. -/
theorem perform_unstartable (session : Session) (event : Event) :
    session.perform event false = session.perform event ∨
      (session.perform event false).1 = .failed .cannotCheck ∧
        session.Strands (session.perform event false).2 := by
  cases event with
  | openFile name directory policy =>
      simp only [perform, openFile]
      rcases RotatingFile.create_unstartable directory policy (session.closeFile name).journal with
        same | ⟨path, after, refused, acquires⟩
      · exact .inl (by rw [same])
      · rw [refused]
        exact .inr ⟨rfl, _, path, leads_closeFile name, rfl, opened_closeFile session name,
          acquires⟩
  | startSetup name settings environment =>
      simp only [perform, startSetup]
      rcases Setup.start_unstartable settings environment (session.closeSetup name).journal with
        same | ⟨path, after, refused, acquires⟩
      · exact .inl (by rw [same])
      · rw [refused]
        exact .inr ⟨rfl, _, path, leads_closeSetup name, rfl, opened_closeSetup session name,
          acquires⟩
  | startGuard name settings environment =>
      simp only [perform, startGuard, Guard.start]
      rcases Setup.start_unstartable settings environment (session.closeGuard name).journal with
        same | ⟨path, after, refused, acquires⟩
      · exact .inl (by rw [same])
      · rw [refused]
        exact .inr ⟨rfl, _, path, leads_closeGuard name, rfl, opened_closeGuard session name,
          acquires⟩
  | start | write | finish | log | logIndented | stream | setLevel | flush | indent | dedent
  | setTee | setThreshold | adopt | rotateFile | rotateFileIfDue | closeFile | stopSetup
  | rotateSetup | closeSetup | closeGuard | elapse => exact .inl rfl

end Session

/-- An event, an event at a moment when no thread can be started, or anything at all
that happens to the files meanwhile.  Open files are the session's own. -/
inductive Happening where
  | event (event : Event)
  | crowded (event : Event)
  | outside (world : FileTree)

namespace Session

def meet (session : Session) : Happening → Session
  | .event event => (session.perform event).2
  | .crowded event => (session.perform event false).2
  | .outside world =>
      let files := session.journal.files
      { session with
        journal := { session.journal with
          files := { world with
            handles := files.handles, opened := files.opened, closed := files.closed } } }

def meetAll (session : Session) (happenings : List Happening) : Session :=
  happenings.foldl meet session

/-- The handle that was taken for nobody. -/
def strandedBy (session : Session) : Happening → List Nat
  | .crowded event =>
      if (session.perform event false).1 = .failed .cannotCheck then
        [session.journal.files.opened]
      else
        []
  | .event _ | .outside _ => []

def stranded (session : Session) : List Happening → List Nat
  | [] => []
  | happening :: rest =>
      session.strandedBy happening ++ (session.meet happening).stranded rest

theorem stranded_eq_nil {happenings : List Happening}
    (startable : ∀ event, .crowded event ∉ happenings) : session.stranded happenings = [] := by
  induction happenings generalizing session with
  | nil => rfl
  | cons happening rest ih =>
      have later : (session.meet happening).stranded rest = [] :=
        ih fun event member => startable event (List.mem_cons_of_mem _ member)
      cases happening with
      | event | outside => simpa [stranded, strandedBy] using later
      | crowded event => exact absurd List.mem_cons_self (startable event)

theorem Strands.custody {after : Session} (strands : session.Strands after)
    (custody : Custody first session.journal (owners session.fileOf already)) :
    Custody first after.journal
      (owners after.fileOf (already ++ [session.journal.files.opened])) := by
  obtain ⟨middle, path, leads, held, opened, acquires⟩ := strands
  have moved : Custody first middle.journal (owners middle.held already) :=
    leads.preserves (fun desk => Custody first desk.journal (owners desk.held already))
      Desk.Step.custody custody
  have unowned : owners middle.held already (.nobody middle.journal.files.opened) = none := by
    cases owns : owners middle.held already (.nobody middle.journal.files.opened) with
    | none => rfl
    | some handle =>
        have below := (moved.live _ _ owns).2.1
        simp only [owners, Option.ite_none_right_eq_some, Option.some.injEq] at owns
        omega
  rw [owners_append, ← held, ← opened]
  exact moved.acquires (unowned ▸ acquires)

theorem custody_meet (happening : Happening)
    (custody : Custody first session.journal (owners session.fileOf already)) :
    Custody first (session.meet happening).journal
      (owners (session.meet happening).fileOf (already ++ session.strandedBy happening)) := by
  have performed (event : Event) : Custody first (session.perform event).2.journal
      (owners (session.perform event).2.fileOf already) := by
    have leads : Desk.Leads (session.desk none) _ := leads_perform event
    exact leads.preserves (fun desk => Custody first desk.journal (owners desk.held already))
      Desk.Step.custody custody
  cases happening with
  | event event =>
      rw [strandedBy, List.append_nil]
      exact performed event
  | crowded event =>
      rw [strandedBy, meet]
      rcases perform_unstartable session event with same | ⟨failed, strands⟩
      · rw [same, if_neg (perform_checked session event), List.append_nil]
        exact performed event
      · rw [if_pos failed]
        exact strands.custody custody
  | outside world =>
      rw [strandedBy, List.append_nil]
      exact custody.of_same (.inl rfl) rfl rfl fun _ => rfl

theorem custody_meetAll (happenings : List Happening)
    (custody : Custody first session.journal (owners session.fileOf already)) :
    Custody first (session.meetAll happenings).journal
      (owners (session.meetAll happenings).fileOf (already ++ session.stranded happenings)) := by
  induction happenings generalizing session already with
  | nil =>
      rw [Session.stranded, List.append_nil]
      exact custody
  | cons happening rest ih =>
      rw [Session.stranded, ← List.append_assoc]
      exact ih (custody_meet happening custody)

/-- Lines never go to a handle that has been closed.  In every state the target is
none, or an open handle that exactly one holder has, or one that is stranded, and
what is said next is written through it alone.  Every handle given out so far has
been closed once, or is some holder's, or is stranded, and what is stranded is never
closed.  Nothing is stranded as long as threads can be started. -/
theorem target_is_open_and_held (fresh : session.Fresh) (happenings : List Happening)
    {event : Event} (speaks : event.Speaks) :
    let after := session.meetAll happenings
    let files := after.journal.files
    let stranded := session.stranded happenings
    (∀ handle, after.journal.target? = some handle →
        (files.handles.lookup handle).isSome ∧ handle ∉ files.closed ∧
          (handle ∉ stranded → ∃! holder, handleOf after.fileOf holder = some handle)) ∧
      Says after.journal (after.lines event) (after.perform event).2.journal ∧
      files.closed.Nodup ∧
      (∀ handle, session.journal.files.opened ≤ handle → handle < files.opened →
        (handle ∈ files.closed ↔
          handle ∉ stranded ∧ ∀ holder, handleOf after.fileOf holder ≠ some handle)) ∧
      (∀ handle ∈ stranded, (files.handles.lookup handle).isSome ∧ handle ∉ files.closed ∧
        ∀ holder, handleOf after.fileOf holder ≠ some handle) ∧
      ((∀ event, .crowded event ∉ happenings) → stranded = []) := by
  intro after files stranded
  have custody : Custody session.journal.files.opened after.journal
      (owners after.fileOf stranded) := custody_meetAll happenings fresh.custody
  have abandoned {handle : Nat} (member : handle ∈ stranded) :
      owners after.fileOf stranded (.nobody handle) = some handle := if_pos member
  have apart {handle : Nat} (member : handle ∈ stranded) (holder : Holder) :
      handleOf after.fileOf holder ≠ some handle := fun owns =>
    nomatch custody.alone (.holder holder) (.nobody handle) handle owns (abandoned member)
  refine ⟨fun handle aimed => ?_, says_perform speaks, custody.once, fun handle since below => ?_,
    fun handle member => ?_, stranded_eq_nil⟩
  · obtain ⟨owner, owns⟩ := custody.target handle aimed
    obtain ⟨_, _, unclosed, known⟩ := custody.live owner handle owns
    refine ⟨known, unclosed, fun elsewhere => ?_⟩
    cases owner with
    | holder holder =>
        refine ⟨holder, owns, fun other holds => ?_⟩
        cases custody.alone (.holder other) (.holder holder) handle holds owns
        rfl
    | nobody other =>
        obtain ⟨member, same⟩ := Option.ite_none_right_eq_some.mp owns
        cases same
        exact absurd member elsewhere
  · constructor
    · intro gone
      refine ⟨fun member => ?_, fun holder owns => ?_⟩
      · exact (custody.live _ handle (abandoned member)).2.2.1 gone
      · exact (custody.live (.holder holder) handle owns).2.2.1 gone
    · rintro ⟨elsewhere, unowned⟩
      rcases custody.settled handle since below with gone | ⟨owner | other, owns⟩
      · exact gone
      · exact absurd owns (unowned owner)
      · obtain ⟨member, same⟩ := Option.ite_none_right_eq_some.mp owns
        cases same
        exact absurd member elsewhere
  · obtain ⟨_, _, unclosed, known⟩ := custody.live _ handle (abandoned member)
    exact ⟨known, unclosed, apart member⟩

/-- One log file is open, and no thread can be started for the checks of another one.
The journal is directed to the handle of that one, which nobody has. -/
theorem unchecked_file_is_stranded :
    let session : Session := { journal := { clock := "t" } }
    let happenings : List Happening :=
      [.event (.openFile "n" "b" {}), .crowded (.openFile "m" "a" {})]
    let after := session.meetAll happenings
    session.Fresh ∧ Event.flush.Speaks ∧ after.journal.target? = some 1 ∧
      (after.journal.files.handles.lookup 1).isSome ∧ 1 ∉ after.journal.files.closed ∧
      (∀ holder, handleOf after.fileOf holder ≠ some 1) ∧
      handleOf after.fileOf (.file "n") = some 0 := by
  intro session happenings
  have fresh : session.Fresh :=
    ⟨fun holder => by cases holder <;> rfl, rfl, List.nodup_nil, nofun⟩
  have aimed : (session.meetAll happenings).journal.target? = some 1 := by decide +kernel
  have left : 1 ∈ session.stranded happenings := by decide +kernel
  have held : handleOf (session.meetAll happenings).fileOf (.file "n") = some 0 := by
    decide +kernel
  obtain ⟨_, _, _, _, abandoned, _⟩ :=
    target_is_open_and_held fresh happenings (show Event.flush.Speaks from trivial)
  obtain ⟨known, unclosed, unheld⟩ := abandoned 1 left
  exact ⟨fresh, trivial, aimed, known, unclosed, unheld, held⟩

end Session

end MarkerBus.Log
