import Conveyor.Shell.Builtin
import Conveyor.Shell.Expand
import Conveyor.Shell.Parser
import Conveyor.Shell.Signal
import Conveyor.Shell.Utility.Files
import Conveyor.Shell.Utility.Search
import Conveyor.Shell.Utility.Texts

/-!
Evaluation of scripts. Every nested step takes fuel, so that evaluation ends; a script that uses all
of it counts as one that never ends.
-/

namespace Conveyor.Shell

/-- Commands that are programs of their own. -/
def utilities : List (String × Utility) :=
  Utility.ofFiles ++ Utility.ofTexts ++ [
    ("grep", Utility.grep), ("echo", Builtin.echo), ("printf", Builtin.printf),
    ("true", fun _ => return 0), ("false", fun _ => return 1), ("pwd", Builtin.pwd),
    ("test", Builtin.condition "test"), ("[", Builtin.bracket)]

/-- Programs that run other commands. -/
def runners : List String := ["sh", "dash", "env", "nohup", "nice"]

/-- Commands of the shell that run other commands or scripts. -/
def steering : List String := ["eval", ".", "exec", "command", "type", "trap", "kill", "local"]

/-- Commands whose mistakes and assignments stay with the shell. -/
def isSpecialCommand (name : String) : Bool :=
  (Builtin.special.lookup name).isSome || ["eval", ".", "exec", "trap"].contains name

def programDirectories : List String := ["/bin", "/usr/bin"]

/-- Where commands are looked for in an environment without `PATH`. -/
def standardPath : String := "/usr/local/sbin:/usr/local/bin:/usr/sbin:/usr/bin:/sbin:/bin"

/-- The program that a command name leads to. -/
def program? (m : Machine) (name : String) : Option String :=
  let exists? (base : String) : Option String :=
    if (utilities.lookup base).isSome || runners.contains base then some base else none
  if name.toList.contains '/' then
    match programDirectories.find? fun d => name.startsWith (d ++ "/") with
    | some d => exists? (String.ofList (name.toList.drop (d.length + 1)))
    | none => none
  else
    let path := (m.value? "PATH").getD ""
    if (path.splitOn ":").any programDirectories.contains then exists? name else none

def programPath (m : Machine) (name : String) : String :=
  if name.toList.contains '/' then name
  else
    let path := (m.value? "PATH").getD ""
    (((path.splitOn ":").find? programDirectories.contains).getD "/bin") ++ "/" ++ name

def reportMissing (name : String) : Flow Int := do
  let m ← get
  if name.toList.contains '/' && (m.stat name).isOk then
    Flow.warn (name ++ ": Permission denied")
    return 126
  else
    Flow.warn (name ++ ": " ++ if name.isEmpty then "Permission denied" else "not found")
    return 127

/-- Why a file cannot be opened, as the shell says it. -/
def openReason (creates : Bool) (r : Refusal) : String :=
  match r with
  | .notFound | .notDirectory => if creates then "Directory nonexistent" else "No such file"
  | r => r.text

/-- The streams that take no file of the tree. -/
def deviceStream? (streams : Table Nat Stream) (path : String) : Option Stream :=
  match path with
  | "/dev/null" => some .nothing
  | "/dev/zero" => some .zeros
  | "/dev/stdin" => streams.get? 0
  | "/dev/stdout" => streams.get? 1
  | "/dev/stderr" => streams.get? 2
  | _ => none

/-- Opens the target of a redirection; nothing if it cannot be opened, which is told. -/
def openTarget (kind : RedirectKind) (target : String) (streams : Table Nat Stream) :
    Flow (Option Stream) := do
  let m ← get
  match deviceStream? streams target with
  | some s => return some s
  | none =>
    match kind with
    | .read =>
      match m.stat target with
      | .ok (.file c _) => return some (.buffer (← Flow.newBuffer c.toBytes))
      | .ok _ => return some .nothing
      | .error r =>
        Flow.warn ("cannot open " ++ target ++ ": " ++ openReason false r)
        return none
    | .duplicate =>
      match target.toNat? with
      | some n => match streams.get? n with
        | some s => return some s
        | none =>
          Flow.warn (target ++ ": Bad file descriptor")
          return none
      | none => Flow.abort "Syntax error: Bad fd number"
    | .here => return some (.buffer (← Flow.newBuffer (Text.encode target)))
    | .write | .append =>
      let kept := match m.stat target with
        | .ok (.file c _) => if kind = .append then c else .bytes []
        | _ => .bytes []
      match ← Flow.change fun t => do t.writeFile (← m.place? target) kept with
      | .ok () =>
        match (m.place? target).bind m.files.follow with
        | .ok place => return some (.file place)
        | .error _ => return none
      | .error r =>
        Flow.warn ("cannot create " ++ target ++ ": " ++ openReason true r)
        return none

/-- The streams after some redirections; nothing if one of them cannot be opened. -/
def redirect (run : Scanner → Flow String) (streams : Table Nat Stream) :
    List Redirect → Flow (Option (Table Nat Stream))
  | [] => return some streams
  | r :: rest => do
    let target ← expandText run r.target
    if r.kind = .duplicate && target = "-" then redirect run (streams.erase r.stream) rest
    else match ← Flow.withStreams streams (openTarget r.kind target streams) with
      | some s => redirect run (streams.put r.stream s) rest
      | none => return none

/-- The shell ends after a command that failed, where it was told so. -/
def checkStatus (tested : Bool) : Flow Unit := do
  let m ← get
  if !tested && m.has 'e' && m.status ≠ 0 then throw (.exit m.status)

/-- The status of a builtin is the status of the shell after it. -/
def runBuiltin (b : Builtin) (args : List String) : Flow Unit := do
  Flow.setStatus (← Flow.speakingAs none (b args))

def restoreVariables (names : List String) (before : Machine) : Flow Unit :=
  modify fun m =>
    { m with bindings := names.foldl (fun vs n => match before.bindings.get? n with
        | some v => vs.put n v
        | none => vs.erase n) m.bindings }

/-- Runs work with variables that commands get, and puts them back after it. -/
def withAssignments (assignments : List (String × String)) (work : Flow Unit) : Flow Unit := do
  let before ← get
  for (n, v) in assignments do
    Flow.setVariable n v
    Flow.exportVariable n
  tryCatch work fun stop => do
    restoreVariables (assignments.map (·.1)) before
    throw stop
  restoreVariables (assignments.map (·.1)) before

def describe (m : Machine) (name : String) : Option String :=
  if reservedWords.contains name then some (name ++ " is a shell keyword")
  else if m.functions.has name then some (name ++ " is a shell function")
  else if isSpecialCommand name then some (name ++ " is a special shell builtin")
  else if (Builtin.regular.lookup name).isSome || steering.contains name then
    some (name ++ " is a shell builtin")
  else (program? m name).map fun _ => name ++ " is " ++ programPath m name

/-- What `command -v` says about a name. -/
def locate? (m : Machine) (name : String) : Option String :=
  if reservedWords.contains name || m.functions.has name || isSpecialCommand name ||
      (Builtin.regular.lookup name).isSome || steering.contains name then some name
  else (program? m name).map fun _ => programPath m name

def tellNames (names : List String) (said : Machine → String → Option String)
    (missing : String → Flow Unit) : Flow Unit := do
  let m ← get
  for n in names do
    match said m n with
    | some s => Flow.printLine s
    | none => missing n
  Flow.setStatus (if names.all fun n => (said m n).isSome then 0 else 127)

/-- Variables with a path for commands among them. -/
def withPath (bindings : Table String Variable) : Table String Variable :=
  if bindings.has "PATH" then bindings else bindings.put "PATH" { value := standardPath }

/-- A fresh shell with the environment of another. -/
def Machine.child (m : Machine) (name : String) (parameters : List String) : Machine :=
  { m with
    name, parameters, process := m.process + 1, status := 0, line := 1, options := []
    functions := [], traps := [], loops := 0, inFunction := false, jobs := []
    speaker := none
    bindings := withPath (m.bindings.filter fun e => e.2.exported) }

/-- What the end of a loop's round asks for. -/
inductive Round
  | goOn
  | finish

def round (body : Flow Unit) : Flow Round := do
  let loops := (← get).loops
  modify fun m => { m with loops := loops + 1 }
  let answer : Except Stop Round ← tryCatch (do body; return .ok .goOn) fun
    | .leaveLoop 1 => return .ok .finish
    | .leaveLoop (n + 2) => return .error (.leaveLoop (n + 1))
    | .nextRound 1 => return .ok .goOn
    | .nextRound (n + 2) => return .error (.nextRound (n + 1))
    | stop => return .error stop
  modify fun m => { m with loops }
  MonadExcept.ofExcept answer

mutual

def runLines : Nat → Scanner → Flow Unit
  | 0, _ => throw .expired
  | fuel + 1, s => do
    match (Scan.line?).run s with
    | .ok (none, _) => pure ()
    | .ok (some statement, s) =>
      evaluate fuel false statement
      runLines fuel s
    | .error (line, e) =>
      modify fun m => { m with line }
      Flow.abort e.text

/-- Runs a script in a shell, with what the shell does at its end. -/
def runScript : Nat → Scanner → Flow Unit
  | 0, _ => throw .expired
  | fuel + 1, script => atEnd fuel (runLines fuel script)

/-- Does at the end of work what the shell was told to do then. -/
def atEnd : Nat → Flow Unit → Flow Unit
  | 0, _ => throw .expired
  | fuel + 1, work => do
    let stop : Option Stop ← tryCatch (do work; return none) fun stop => return some stop
    let m ← get
    let final := match stop with
      | some (.exit status) => status
      | _ => m.status
    match stop with
    | some .expired => throw .expired
    | some (.killed signal) => throw (.killed signal)
    | _ =>
      match m.traps.get? 0 with
      | some action =>
        set { m with traps := m.traps.erase 0, status := final }
        runLines fuel { rest := action.toList }
      | none => pure ()
      throw (.exit final)

/-- The output of a script, whose streams but for the output are those of the shell. -/
def outputOf : Nat → Scanner → Flow String
  | 0, _ => throw .expired
  | fuel + 1, script => do
    let id ← Flow.newBuffer []
    let m ← get
    let streams := m.streams.put 1 (.buffer id)
    let status ← Flow.isolated do
      modify fun m => { m with streams, traps := [] }
      runScript fuel script
    let m ← get
    set { m with buffers := m.buffers.erase id, substituted := status }
    return Text.decodeLossy ((m.content id).filter (· != 0))

/-- Evaluates a statement. `tested` tells that a failure is an answer and nothing more. -/
def evaluate : Nat → Bool → Statement → Flow Unit
  | 0, _, _ => throw .expired
  | fuel + 1, tested, statement => do
    match statement with
    | .empty => pure ()
    | .simple line assignments words redirects =>
      modify fun m => { m with line }
      evaluateSimple fuel tested assignments words redirects
      checkStatus tested
    | .redirected body redirects =>
      match ← redirect (outputOf fuel) (← get).streams redirects with
      | some streams => Flow.withStreams streams (evaluate fuel tested body)
      | none =>
        Flow.setStatus 2
        checkStatus tested
    | .subshell body =>
      let status ← Flow.isolated do
        modify fun m => { m with traps := [] }
        atEnd fuel (evaluate fuel tested body)
      Flow.setStatus status
      checkStatus tested
    | .pipeline parts =>
      let start := (← get).now
      let input := ((← get).streams.get? 0).getD .nothing
      evaluateParts fuel start start false input parts
      checkStatus tested
    | .negation body =>
      evaluate fuel true body
      modify fun m => { m with status := if m.status = 0 then 1 else 0 }
    | .both first second =>
      evaluate fuel true first
      if (← get).status = 0 then evaluate fuel tested second
    | .either first second =>
      evaluate fuel true first
      if (← get).status ≠ 0 then evaluate fuel tested second
    | .sequence first second =>
      evaluate fuel tested first
      evaluate fuel tested second
    | .background body =>
      let before ← get
      let (answer, after) := ((Flow.isolated do
        modify fun m => { m with streams := m.streams.put 0 .nothing, traps := [] }
        atEnd fuel (evaluate fuel tested body)).run.run before)
      let isEndless := match answer with
        | .error .expired => true
        | _ => false
      let finish := if isEndless then max after.now (before.limit.getD after.now) else after.now
      let status := match answer with
        | .ok status => status
        | .error _ => 0
      set { after with
        now := before.now, backgroundEnd := max after.backgroundEnd finish, status := 0
        jobs := before.jobs ++ [(before.process + before.jobs.length + 1, status)] }
    | .conditional condition body otherwise =>
      evaluate fuel true condition
      if (← get).status = 0 then evaluate fuel tested body
      else
        Flow.setStatus 0
        evaluate fuel tested otherwise
    | .loop stopsOn condition body => evaluateLoop fuel tested stopsOn condition body 0
    | .forEach name words body =>
      let values ← match words with
        | some ws => expandWords (outputOf fuel) ws
        | none => (·.parameters) <$> get
      Flow.setStatus 0
      evaluateEach fuel tested name body values
    | .choice subject branches =>
      let text ← expandText (outputOf fuel) subject
      evaluateChoice fuel tested text.toList branches
    | .function name body =>
      modify fun m => { m with functions := m.functions.put name body, status := 0 }

/-- Evaluates the parts of a pipeline, each with the output of the one before it as its input. All
of them start at the same time. -/
def evaluateParts : Nat → Nat → Nat → Bool → Stream → List Statement → Flow Unit
  | 0, _, _, _, _, _ => throw .expired
  | _, _, last, endless, _, [] => do
    modify fun m => { m with now := last }
    if endless then throw .expired
  | fuel + 1, start, last, endless, input, part :: rest => do
    let id ← Flow.newBuffer []
    let m ← get
    let output := if rest.isEmpty then (m.streams.get? 1).getD .nothing else .buffer id
    modify fun m => { m with now := start }
    let work := Flow.isolated do
      modify fun m =>
        { m with streams := (m.streams.put 0 input).put 1 output, traps := [] }
      atEnd fuel (evaluate fuel false part)
    let (answer, m) := work.run.run (← get)
    set m
    let last := max last m.now
    match answer with
    | .ok status =>
      Flow.setStatus status
      evaluateParts fuel start last endless (.buffer id) rest
    | .error .expired => evaluateParts fuel start last true (.buffer id) rest
    | .error stop => throw stop

def evaluateLoop : Nat → Bool → Bool → Statement → Statement → Int → Flow Unit
  | 0, _, _, _, _, _ => throw .expired
  | fuel + 1, tested, stopsOn, condition, body, status => do
    let test ← round (evaluate fuel true condition)
    let holds : Bool := (← get).status = 0
    match test, holds != stopsOn with
    | .goOn, true =>
      match ← round (evaluate fuel tested body) with
      | .goOn =>
        let m ← get
        evaluateLoop fuel tested stopsOn condition body m.status
      | .finish => Flow.setStatus 0
    | .goOn, false => Flow.setStatus status
    | .finish, _ => Flow.setStatus 0

def evaluateEach : Nat → Bool → String → Statement → List String → Flow Unit
  | 0, _, _, _, _ => throw .expired
  | _, _, _, _, [] => pure ()
  | fuel + 1, tested, name, body, value :: rest => do
    Flow.setVariable name value
    match ← round (evaluate fuel tested body) with
    | .goOn => evaluateEach fuel tested name body rest
    | .finish => Flow.setStatus 0

def evaluateChoice : Nat → Bool → List Char → List (List Word × Statement) → Flow Unit
  | 0, _, _, _ => throw .expired
  | _, _, _, [] => Flow.setStatus 0
  | fuel + 1, tested, text, (patterns, body) :: rest => do
    let es ← patterns.mapM (expandPattern (outputOf fuel))
    if es.any fun e => matchesText e text then
      Flow.setStatus 0
      evaluate fuel tested body
    else evaluateChoice fuel tested text rest

/-- Evaluates a simple command: its words, then its redirections and assignments, and then what its
first word names. -/
def evaluateSimple : Nat → Bool → List (String × Word) → List Word → List Redirect → Flow Unit
  | 0, _, _, _, _ => throw .expired
  | fuel + 1, tested, assignments, words, redirects => do
    let run := outputOf fuel
    modify fun m => { m with substituted := 0 }
    let fields ← expandWords run words
    let isSpecial := fields.head?.any isSpecialCommand
    match ← redirect run (← get).streams redirects with
    | none =>
      if isSpecial then throw (.exit 2)
      Flow.setStatus 2
    | some streams =>
      let values ← assignments.mapM fun (n, w) => do return (n, ← expandText run w)
      if (← get).has 'x' then
        Flow.complain ("+ " ++ " ".intercalate (values.map (fun (n, v) => n ++ "=" ++ v) ++ fields))
      match fields with
      | [] =>
        for (n, v) in values do Flow.setVariable n v
        modify fun m => { m with status := m.substituted }
      | "exec" :: [] =>
        for (n, v) in values do Flow.setVariable n v
        modify fun m => { m with streams, status := 0 }
      | name :: args =>
        let work := Flow.withStreams streams (evaluateCommand fuel tested true name args)
        if isSpecial then
          for (n, v) in values do Flow.setVariable n v
          work
        else withAssignments values work

/-- Runs a command by its name: a function if `functions`, a command of the shell, or a program. -/
def evaluateCommand : Nat → Bool → Bool → String → List String → Flow Unit
  | 0, _, _, _, _ => throw .expired
  | fuel + 1, tested, functions, name, args => do
    let m ← get
    match if functions then m.functions.get? name else none with
    | some body => evaluateFunction fuel tested body args
    | none =>
      match (Builtin.special ++ Builtin.regular).lookup name with
      | some b => runBuiltin b args
      | none =>
        if steering.contains name then evaluateSteering fuel tested name args
        else match program? m name with
          | some base => evaluateProgram fuel base args
          | none => Flow.setStatus (← reportMissing name)

def evaluateFunction : Nat → Bool → Statement → List String → Flow Unit
  | 0, _, _, _ => throw .expired
  | fuel + 1, tested, body, args => do
    let before ← get
    set { before with parameters := args, locals := [], loops := 0, inFunction := true }
    let stop : Option Stop ← tryCatch (do evaluate fuel tested body; return none) fun
      | .leaveFunction => return none
      | stop => return some stop
    restoreVariables (← get).locals before
    modify fun m => { m with
      parameters := before.parameters, locals := before.locals, loops := before.loops
      inFunction := before.inFunction }
    match stop with
    | some stop => throw stop
    | none => pure ()

/-- Runs a command of the shell that runs other commands. -/
def evaluateSteering : Nat → Bool → String → List String → Flow Unit
  | 0, _, _, _ => throw .expired
  | fuel + 1, tested, name, args => do
    match name, args with
    | "eval", _ =>
      Flow.setStatus 0
      Flow.speakingAs (some "eval") <| runEval fuel tested { rest := (" ".intercalate args).toList }
    | ".", path :: _ =>
      let m ← get
      if path = "/dev/null" then
        Flow.setStatus 0
        return
      match if path.toList.contains '/' then m.stat path else .error .notFound with
      | .ok (.file c _) =>
        Flow.setStatus 0
        let script : Scanner := { rest := (Text.decodeLossy c.toBytes).toList }
        tryCatch (Flow.speakingAs (some path) (runLines fuel script)) fun
          | .leaveFunction => pure ()
          | stop => throw stop
      | _ =>
        Flow.speakingAs none <| Flow.abort <|
          if path.toList.contains '/' then ".: cannot open " ++ path ++ ": No such file"
          else ".: " ++ path ++ ": not found"
    | "exec", command :: rest =>
      Flow.speakingAs (some "exec") (evaluateCommand fuel tested false command rest)
      throw (.exit (← get).status)
    | "command", "-v" :: names => tellNames (names.take 1) locate? fun _ => pure ()
    | "command", "-V" :: names =>
      tellNames names describe fun n => Flow.printLine (n ++ ": not found")
    | "command", "-p" :: command :: rest => evaluateCommand fuel tested false command rest
    | "command", "--" :: command :: rest => evaluateCommand fuel tested false command rest
    | "command", command :: rest => evaluateCommand fuel tested false command rest
    | "type", names =>
      tellNames names describe fun n => Flow.printLine (n ++ ": not found")
    | "trap", action :: first :: more =>
      for s in first :: more do
        match Signal.number? s with
        | some n =>
          modify fun m => { m with
            traps := if action = "-" then m.traps.erase n else m.traps.put n action }
        | none => Flow.complain ("trap: " ++ s ++ ": bad trap")
      Flow.setStatus (if (first :: more).any fun s => (Signal.number? s).isNone then 1 else 0)
    | "kill", _ =>
      match args, Signal.request? args with
      | ["-l", n], _ =>
        match n.toNat?.bind Signal.name? with
        | some name =>
          Flow.printLine name
          Flow.setStatus 0
        | none => Flow.setStatus (← Builtin.fail "kill" ("invalid signal number or exit status: " ++ n) 2)
      | _, some (signal, target :: more) => evaluateKill fuel signal (target :: more)
      | _, some (_, []) => Flow.setStatus (← Builtin.fail "kill" Signal.usage 2)
      | a :: _, none =>
        if a.startsWith "-" && 1 < a.length then
          Flow.setStatus (← Builtin.fail "kill" ("Illegal option " ++ a.take 2) 2)
        else Flow.setStatus (← Builtin.fail "kill" Signal.usage 2)
      | [], none => Flow.setStatus (← Builtin.fail "kill" Signal.usage 2)
    | "local", _ =>
      if !(← get).inFunction then Flow.speakingAs none (Flow.abort "local: not in a function")
      for a in args do
        let name := String.ofList (a.toList.takeWhile (· ≠ '='))
        modify fun m => { m with locals := name :: m.locals }
        Builtin.assign "local" a fun _ => pure ()
      Flow.setStatus 0
    | _, _ => Flow.setStatus 0

/-- Runs the lines of a script as a part of another. -/
def runEval : Nat → Bool → Scanner → Flow Unit
  | 0, _, _ => throw .expired
  | fuel + 1, tested, s => do
    match (Scan.line?).run s with
    | .ok (none, _) => pure ()
    | .ok (some statement, s) =>
      evaluate fuel tested statement
      runEval fuel tested s
    | .error (_, e) => Flow.abort e.text

def evaluateKill : Nat → Nat → List String → Flow Unit
  | 0, _, _ => throw .expired
  | _, _, [] => pure ()
  | fuel + 1, signal, target :: rest => do
    let m ← get
    if target.toNat? = some m.process then
      Flow.setStatus 0
      match m.traps.get? signal with
      | some action =>
        runLines fuel { rest := action.toList }
        Flow.setStatus 0
      | none => if !Signal.harmless.contains signal then throw (.killed signal)
      evaluateKill fuel signal rest
    else
      let text := match target.toInt? with
        | some _ => "No such process\n"
        | none => "Illegal number: " ++ target
      Flow.setStatus (← Builtin.fail "kill" text (if target.toInt?.isSome then 1 else 2))

def evaluateProgram : Nat → String → List String → Flow Unit
  | 0, _, _ => throw .expired
  | fuel + 1, name, args => do
    match utilities.lookup name with
    | some u => Flow.setStatus (← u args)
    | none =>
      if name = "sh" || name = "dash" then evaluateShell fuel name [] args
      else if name = "env" then
        let isAssignment (a : String) : Bool := a.toList.contains '='
        let assigned := (args.filter (· ≠ "-i")).takeWhile isAssignment
        let command := (args.filter (· ≠ "-i")).drop assigned.length
        let m ← get
        let status ← Flow.isolated do
          if args.head? = some "-i" then
            set { m with bindings := m.bindings.filter fun e => !e.2.exported }
          for a in assigned do Builtin.assign "env" a Flow.exportVariable
          match command with
          | [] => Flow.setStatus (← Utility.printenv [])
          | c :: rest =>
            let m ← get
            match program? { m with bindings := withPath m.bindings } c with
            | some base => evaluateProgram fuel base rest
            | none =>
              Flow.complain ("env: '" ++ c ++ "': No such file or directory")
              Flow.setStatus 127
        Flow.setStatus status
      else match args with
        | c :: rest => evaluateCommand fuel false false c rest
        | [] => Flow.setStatus 125

/-- Runs another shell with the options and the script that its arguments give. -/
def evaluateShell : Nat → String → List Char → List String → Flow Unit
  | 0, _, _, _ => throw .expired
  | fuel + 1, name, options, args => do
    let start (name : String) (parameters : List String) (script : String) : Flow Unit := do
      let status ← Flow.isolated do
        modify fun m => { m.child name parameters with options := options.filter (· ≠ 'c') }
        runScript fuel { rest := script.toList }
      Flow.setStatus status
    match args with
    | [] => start name [] (Text.decodeLossy (← Flow.readAll 0))
    | a :: rest =>
      match a.toList with
      | '-' :: c :: cs => evaluateShell fuel name (options ++ c :: cs) rest
      | _ =>
        if options.contains 'c' then start (rest.headD name) (rest.drop 1) a
        else match (← get).stat a with
          | .ok (.file c _) => start a rest (Text.decodeLossy c.toBytes)
          | _ =>
            Flow.complain (name ++ ": 0: cannot open " ++ a ++ ": No such file")
            Flow.setStatus 2

end

end Conveyor.Shell
