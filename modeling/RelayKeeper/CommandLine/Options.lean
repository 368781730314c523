import RelayKeeper.Provision.State
import RelayKeeper.Text.Split

/-!
# Options

The words of a command line: options, a command, and the options after it. An option that takes a
value has it in the next word or behind an equals sign. Most options may stand before the command
and after it; what stands after it counts. An option may be given once on each side.
-/

namespace RelayKeeper.CommandLine

inductive OptionName where
  | config
  | bindAddress
  | httpProxy
  | httpsProxy
  | noProxy
  | logFile
  | relation
  deriving DecidableEq, Repr

namespace OptionName

def text : OptionName → String
  | .config => "config"
  | .bindAddress => "bind-address"
  | .httpProxy => "http-proxy"
  | .httpsProxy => "https-proxy"
  | .noProxy => "no-proxy"
  | .logFile => "log-file"
  | .relation => "relation"

def takesValue : OptionName → Bool
  | .logFile => false
  | _ => true

/-- Whether a value will do. A settings file cannot be nameless. -/
def accepts (name : OptionName) (value : String) : Bool :=
  name != .config || !value.isEmpty

def common : List OptionName :=
  [.config, .bindAddress, .httpProxy, .httpsProxy, .noProxy, .logFile]

end OptionName

inductive CommandName where
  | install
  | updateStatus
  | consumerJoined
  | getServerConfig
  | fingerprints
  deriving DecidableEq, Repr

namespace CommandName

def text : CommandName → String
  | .install => "install"
  | .updateStatus => "update-status"
  | .consumerJoined => "consumer-joined"
  | .getServerConfig => "get-server-config"
  | .fingerprints => "fingerprints"

def all : List CommandName :=
  [.install, .updateStatus, .consumerJoined, .getServerConfig, .fingerprints]

def ofText? (word : String) : Option CommandName :=
  all.find? (·.text == word)

def options : CommandName → List OptionName
  | .consumerJoined => .relation :: OptionName.common
  | _ => OptionName.common

end CommandName

inductive Refusal where
  /-- Help was asked for. -/
  | help
  | misuse
  deriving DecidableEq, Repr

abbrev Given := List (OptionName × String)

namespace Given

def value? (given : Given) (name : OptionName) : Option String :=
  (given.find? (·.1 == name)).map (·.2)

def add (given : Given) (name : OptionName) (value : String) : Except Refusal Given :=
  if (given.value? name).isSome || !name.accepts value then .error .misuse
  else .ok (given ++ [(name, value)])

end Given

inductive Word where
  | plain
  /-- Two dashes alone, after which no word is an option. -/
  | terminator
  /-- Two dashes and a name, perhaps with a value attached. -/
  | long (name : List Char) (attached : Option (List Char))
  /-- One dash and letters. -/
  | short (letters : List Char)
  deriving DecidableEq, Repr

/-- A single dash is a plain word. -/
def Word.ofText (word : String) : Word :=
  match word.toList with
  | ['-', '-'] => .terminator
  | '-' :: '-' :: name =>
    match Text.cutAt? '=' name with
    | some (name, value) => .long name (some value)
    | none => .long name none
  | '-' :: letter :: letters => .short (letter :: letters)
  | _ => .plain

def readOptions (known : List OptionName) (given : Given) :
    List String → Except Refusal (Given × List String)
  | [] => .ok (given, [])
  | word :: words =>
    match Word.ofText word with
    | .plain | .terminator => .ok (given, word :: words)
    | .short letters => .error (if letters.head? = some 'h' then .help else .misuse)
    | .long name attached =>
      match known.find? (·.text.toList == name), attached with
      | none, none => .error (if name = "help".toList then .help else .misuse)
      | none, some _ => .error .misuse
      | some option, some value =>
        if option.takesValue then do
          readOptions known (← given.add option (String.ofList value)) words
        else .error .misuse
      | some option, none =>
        if option.takesValue then
          match words with
          | [] => .error .misuse
          | value :: words =>
            if Word.ofText value = .plain then do
              readOptions known (← given.add option value) words
            else .error .misuse
        else do
          readOptions known (← given.add option "") words

def helpWord : String := "help"

/-- What asking for help is answered with: one command may follow. -/
def helpRefusal : List String → Refusal
  | [] => .help
  | [word] => if word = helpWord || (CommandName.ofText? word).isSome then .help else .misuse
  | _ => .misuse

structure Request where
  command : CommandName
  /-- The consumer that joins. -/
  relation : Option String
  settingsFile : Option String
  bindAddress : Option String
  proxies : Provision.ProxyInputs
  logToFile : Bool
  deriving DecidableEq, Repr

def bindAddressVariable : String := "TMATE_BIND_ADDRESS"

/-- The request of a command and the options before and after it, where the environment stands in
for options that are not given. -/
def Request.of (environment : String → Option String) (command : CommandName)
    (before after : Given) : Request :=
  let value (name : OptionName) := (after.value? name).or (before.value? name)
  let inherited := Provision.ProxyInputs.ofLookup environment
  { command := command
    relation := value .relation
    settingsFile := value .config
    bindAddress := (value .bindAddress).or (environment bindAddressVariable)
    proxies :=
      ⟨(value .httpProxy).or inherited.http, (value .httpsProxy).or inherited.https,
        (value .noProxy).or inherited.noProxy⟩
    logToFile := (value .logFile).isSome }

def Request.parse (environment : String → Option String) (words : List String) :
    Except Refusal Request := do
  let (before, rest) ← readOptions OptionName.common [] words
  match rest with
  | [] => .error .misuse
  | word :: rest =>
    if word = helpWord then .error (helpRefusal rest)
    else
      match CommandName.ofText? word with
      | none => .error .misuse
      | some command =>
        let (after, rest) ← readOptions command.options [] rest
        if rest = [] ∨ rest = ["--"] then .ok (.of environment command before after)
        else .error .misuse

end RelayKeeper.CommandLine
