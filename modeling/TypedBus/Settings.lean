import TypedBus.Registry
import TypedBus.Text.Classes
import TypedBus.Text.UpperCase

/-!
# Settings

Two settings are read from the environment: the level below which nothing is logged, and whether the
common registry starts out with the common types. A logger is set up with a level by name or by
number, and has one handler of ours however often that is done.

A name that the logging library does not know stands for the level of warnings, but a few names are
taken by what is no level (`Settings.otherNames`), and those are refused.

Model of `reload` (`ofEnvironment`) and `setup_logging` (`setUp`). Out of scope: the format of what
is logged, handlers that others have attached, and names that a program adds to the logging library
itself.
-/

namespace TypedBus

/-- The settings in force. -/
structure Settings where
  logLevel : Text
  commonTypes : Bool
  deriving Repr

namespace Settings

/-- The words that switch the common types off. -/
def untruths : List String := ["", "0", "false", "f", "no", "n", "off", "disable"]

/-- An ASCII letter in lower case; other code points stay as they are, since none of them has a
lower case letter of ASCII for its own. -/
def lower (p : CodePoint) : CodePoint :=
  match p with
  | .scalar c => .scalar c.toLower
  | p => p

/-- The word switches something on. -/
def isTruth (word : Text) : Bool :=
  !(untruths.map Text.ofString).contains (word.strip.map lower)

/-- A code point that stands for a byte which is no UTF-8. -/
def isEscapedByte (p : CodePoint) : Bool := 0xDC80 ≤ p.toNat && p.toNat ≤ 0xDCFF

/-- A variable of the environment holds bytes other than NUL. -/
def checkVariable (t : Text) : Except Fault Unit :=
  if t.any fun p => p.isSurrogate && !isEscapedByte p then .error (.loneSurrogates t)
  else if t.any (·.is '\x00') then .error .nulInVariable
  else .ok ()

/-- The settings of an environment with these two variables. -/
def ofEnvironment (level types : Option Text) : Except Fault Settings := do
  let _ ← level.mapM checkVariable
  let _ ← types.mapM checkVariable
  .ok
    { logLevel := Text.upper (level.getD "WARNING")
      commonTypes := (types.map isTruth).getD true }

/-- The registry that serves messages without one of their own. -/
def registry (s : Settings) : Registry := if s.commonTypes then .common else {}

/-- The levels of the log by name. -/
def levels : List (String × Nat) :=
  [("CRITICAL", 50), ("FATAL", 50), ("ERROR", 40), ("WARNING", 30), ("WARN", 30), ("INFO", 20),
    ("DEBUG", 10), ("NOTSET", 0)]

/-- The names in upper case that do not stand for a level: the format of records, which is a text,
and the styles in which a format may be written. -/
def otherNames : List (String × Fault) :=
  [("BASIC_FORMAT", .unknownLevel "'%(levelname)s:%(name)s:%(message)s'"),
    ("_STYLES", .notALevel (.concat
      ["\x7b'%': (<class 'logging.PercentStyle'>, '%(levelname)s:%(name)s:%(message)s'), ",
        "'\x7b': (<class 'logging.StrFormatStyle'>, ",
        "'\x7blevelname\x7d:\x7bname\x7d:\x7bmessage\x7d'), ",
        "'$': (<class 'logging.StringTemplateStyle'>, ",
        "'$\x7blevelname\x7d:$\x7bname\x7d:$\x7bmessage\x7d')\x7d"]))]

/-- The level of a name, in whatever case; that of warnings if there is no such name. -/
def levelOf (name : Text) : Except Fault Nat :=
  let named {α : Type} (x : String × α) : Bool := Text.ofString x.1 = name.upper
  match levels.find? named, otherNames.find? named with
  | some (_, level), _ => .ok level
  | none, some (_, fault) => .error fault
  | none, none => .ok 30

end Settings

/-- A logger: its level, a number or a truth value, and how many handlers it has. -/
structure Logger where
  level : Value := .integer 0
  handlers : Nat := 0
  deriving Repr

namespace Logger

/-- The level that a value stands for: null for the one in the settings, a text for one by name. -/
def levelOf (s : Settings) (v : Value) : Except Fault Value := do
  match v with
  | .null => .ok (.integer (← Settings.levelOf s.logLevel))
  | .boolean _ | .integer _ | .fixed _ _ | .handle _ => .ok v
  | .text t | .path t | .signature t => .ok (.integer (← Settings.levelOf t))
  | v => v.refuse .notALevel

/-- Set up a logger with a level. -/
def setUp (s : Settings) (level : Value) (l : Logger) : Except Fault Logger := do
  .ok { level := ← levelOf s level, handlers := max l.handlers 1 }

end Logger

end TypedBus
