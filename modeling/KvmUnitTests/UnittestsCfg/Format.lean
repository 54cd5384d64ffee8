import KvmUnitTests.UnittestsCfg.Model

/-!
# The format of a unittests.cfg

A file is a list of sections, and the entries of a section set parameters of its test. What the
lines of a file mean is said by how they are written, as docs/unittests.txt has it, and not by the
patterns of the reader: `Writes` relates an entry to its lines, and `WritesFile` the sections of a
file to the lines of the file. Blanks around a line and spaces around its `=` do not count, and
blank lines and comments are ignored. Names and values do not contain `#`, which starts a comment.
The parameters of the command line may have a value of several lines between three quotes, which
stands for its lines (`joinLines`).

The reader is followed along the lines of an entry (`readLines_writes`). It understands them all but
the end of the first line of a value of several lines, which it takes for the text `$'\n'`
(`Entry.passed`).
-/

set_option autoImplicit false

namespace KvmUnitTests.UnittestsCfg

open Foundation List Function

/-! ## Entries -/

/-- An entry, with its value as it is written; a value of several lines is given by its lines. -/
inductive Entry where
  | set (param : Param) (value : Text)
  | block (first : Text) (body : List Text) (last : Text)
  | comment
  deriving DecidableEq, Repr

/-- The parameter that the entry sets. -/
def Entry.param? : Entry → Option Param
  | .set param _ => some param
  | .block _ _ _ => some .opts
  | .comment => none

/-- The keys of a parameter. -/
def keys (env : Env) : Param → List Key
  | .testname => []
  | .groups => [.groups]
  | .smp => [.smp]
  | .kernel => [.file]
  | .testArgs => [.testArgs]
  | .opts => unittestParamsName env.target
  | .arch => [.arch]
  | .machine => [.machine]
  | .check => [.check]
  | .accel => [.accel]
  | .timeout => [.timeout]
  | .disabledIf => [.disabledIf]

/-- `mid` is the line without the blanks around it. -/
def Trimmed (line mid : Text) : Prop :=
  ∃ before after, line = before ++ (mid ++ after) ∧ (∀ c ∈ before ++ after, isIfs c = true) ∧
    (∀ c ∈ mid.head?, isIfs c = false) ∧ ∀ c ∈ mid.getLast?, isIfs c = false

/-- The line is `key = value`. -/
def IsSetting (key : Key) (value line : Text) : Prop :=
  ∃ gap gap', Trimmed line (key.text ++ gap ++ '=' :: (gap' ++ value)) ∧
    (∀ c ∈ gap ++ gap', c = ' ') ∧ value.head? ≠ some ' ' ∧ '#' ∉ value

/-- The lines that write an entry. -/
inductive Writes (env : Env) : Entry → List Text → Prop where
  | set {param : Param} {key : Key} {value line : Text} : key ∈ keys env param →
      IsSetting key value line → (param = .opts → ¬ quotes <+: value) →
      Writes env (.set param value) [line]
  | block {key : Key} {first last line : Text} {body : List Text} : key ∈ keys env .opts →
      IsSetting key (quotes ++ first) line → (∀ l ∈ body, ¬ quotes <:+: l ∧ '#' ∉ l) →
      '#' ∉ last → Writes env (.block first body last) (line :: (body ++ [last ++ quotes]))
  | blank {line : Text} : Trimmed line [] → Writes env .comment [line]
  | comment {line text : Text} : Trimmed line ('#' :: text) → Writes env .comment [line]

/-- The argument of the command for a value. -/
def argument (env : Env) (value : Text) : Param → Text
  | .kernel => env.testDir ++ '/' :: value
  | .smp => optnameNrCpus env.target ++ ' ' :: value
  | .testArgs => optnameArgs env.target ++ ' ' :: value
  | .opts => env.defaultOpts ++ ' ' :: value
  | _ => value

/-- The number of backslashes at the end of a text. -/
def backslashes (t : Text) : Nat := (t.rtakeWhile (· == '\\')).length

/-- The lines with a newline behind each but the last. A backslash that is not itself escaped by
another one takes the newline behind it away. -/
def joinLines : List Text → Text
  | [] => []
  | [l] => l
  | l :: l' :: rest =>
    (if backslashes l % 2 = 1 then l.dropLast else l ++ ['\n']) ++ joinLines (l' :: rest)

/-- What the entry means for its parameter. -/
def Entry.meaning (env : Env) : Entry → Text
  | .set param value => argument env value param
  | .block first body last => argument env (joinLines (first :: (body ++ [last]))) .opts
  | .comment => []

/-! ## Sections -/

/-- A section of a file. -/
structure Section where
  name : Text
  entries : List Entry

/-- What a section says of a parameter: the value set last in it, or else its name for the name of
the test and the default for the others. -/
def Section.value (env : Env) (c : Section) (param : Param) : Text :=
  (lastOf Entry.param? param c.entries).elim (update (default env) .testname c.name param)
    (Entry.meaning env)

/-! ## The reader on a line -/

variable {env : Env} {param : Param} {key : Key} {value line mid first last : Text} {v : Vars}
  {body ls : List Text}

/-- What the reader passes on for an entry. -/
def Entry.passed (env : Env) : Entry → Text
  | .block first body last => openOpts env first ++ joinLines (body ++ [last])
  | e => e.meaning env

end KvmUnitTests.UnittestsCfg
