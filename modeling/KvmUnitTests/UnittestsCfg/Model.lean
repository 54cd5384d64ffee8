import Mathlib.Data.List.DropRight
import Mathlib.Data.List.Infix
import KvmUnitTests.Foundation.Sections

/-!
# Reading unittests.cfg

`for_each_unittest` of scripts/common.bash reads a unittests.cfg line by line and calls a command
for each test. The parameters of a test live in shell variables. A header `[name]` flushes them to
a call of the command and sets the defaults, a line `key = value` assigns one of them, and the end
of the file flushes them once more. A value of the command line parameters that starts with three
quotes goes over several lines, which a loop of its own reads up to the closing quotes.

The lines of the file are the lists of their characters without the newline, and every line has its
newline. A shell variable that is declared and not assigned is the empty text, and so is a
positional parameter beyond the last one that is passed. The regular expressions are matched by
functions. The command is a function of its own variables: a call is the list of its arguments
after the command's name, and it does not change the reader's variables.

On s390x the command is called through `arch_cmd_s390x` of scripts/s390x/func.bash, which passes on
eleven arguments and may call the command a second time. The message of a test that it skips is
left out.
-/

set_option autoImplicit false

namespace KvmUnitTests.UnittestsCfg

open Foundation Function

/-- A text of the shell. -/
abbrev Text := List Char

/-! ## The environment -/

/-- `vmm_get_target`: the virtual machine monitor the tests run on. -/
inductive Target where
  | qemu
  | kvmtool
  deriving DecidableEq, Repr

/-- What the reader takes from its environment: the target, `TEST_DIR`, the default options of
kvmtool, whether `ARCH_CMD` is `arch_cmd_s390x` (it is empty elsewhere), and the files there are. -/
structure Env where
  target : Target
  testDir : Text
  kvmtoolDefaultOpts : Text
  s390x : Bool
  isFile : Text → Bool

/-- The keys of the settings. -/
inductive Key where
  | file
  | smp
  | testArgs
  | extraParams
  | qemuParams
  | kvmtoolParams
  | groups
  | arch
  | machine
  | check
  | disabledIf
  | accel
  | timeout
  deriving DecidableEq, Repr

def Key.text : Key → Text
  | file => "file".toList
  | smp => "smp".toList
  | testArgs => "test_args".toList
  | extraParams => "extra_params".toList
  | qemuParams => "qemu_params".toList
  | kvmtoolParams => "kvmtool_params".toList
  | groups => "groups".toList
  | arch => "arch".toList
  | machine => "machine".toList
  | check => "check".toList
  | disabledIf => "disabled_if".toList
  | accel => "accel".toList
  | timeout => "timeout".toList

/-- `vmm_unittest_params_name`: the alternatives of the key of the command line parameters. -/
def unittestParamsName : Target → List Key
  | .qemu => [.extraParams, .qemuParams]
  | .kvmtool => [.kvmtoolParams]

/-- `vmm_optname_nr_cpus`. -/
def optnameNrCpus : Target → Text
  | .qemu => "-smp".toList
  | .kvmtool => "--cpus".toList

/-- `vmm_optname_args`. -/
def optnameArgs : Target → Text
  | .qemu => "-append".toList
  | .kvmtool => "--params".toList

/-- `vmm_default_opts`. -/
def Env.defaultOpts (env : Env) : Text :=
  match env.target with
  | .qemu => []
  | .kvmtool => env.kvmtoolDefaultOpts

/-! ## Matching a line -/

/-- The blanks that `read` strips from both ends of a line. -/
def isIfs (c : Char) : Bool := c == ' ' || c == '\t'

/-- `read -r line`: the line without the blanks around it. -/
def strip (line : Text) : Text := (line.dropWhile isIfs).rdropWhile isIfs

/-- The text in a header, `^\[(.*)\]$`. -/
def header : Text → Option Text
  | '[' :: rest => if rest.getLast? = some ']' then some rest.dropLast else none
  | _ => none

/-- The value of a setting, `^key\ *=\ *(.*)$`. -/
def setting (key : Key) (line : Text) : Option Text :=
  if key.text.isPrefixOf line then
    match (line.drop key.text.length).dropWhile (· == ' ') with
    | '=' :: rest => some (rest.dropWhile (· == ' '))
    | _ => none
  else none

/-- The value of a setting of the command line parameters, `^($params_name)\ *=\ *(.*)$`. -/
def paramsSetting (env : Env) (line : Text) : Option Text :=
  (unittestParamsName env.target).findSome? fun key => setting key line

/-- The quotes around a value of several lines. -/
def quotes : Text := "\"\"\"".toList

/-- The first line of a value of several lines, `^($params_name)\ *=\ *'"""'(.*)$`. -/
def opening (env : Env) (line : Text) : Option Text :=
  (paramsSetting env line).bind fun value =>
    if quotes.isPrefixOf value then some (value.drop quotes.length) else none

/-- The characters of the bracket expression `[:blank:]`. Outside of a second pair of brackets it
is not a character class. -/
def isBlankLetter (c : Char) : Bool := c ∈ ":blank".toList

/-- The last line of a value of several lines, `^(.*)'"""'[:blank:]*$`. -/
def closing (reply : Text) : Option Text :=
  let quoted := reply.rdropWhile isBlankLetter
  if quotes.isSuffixOf quoted then some (quoted.take (quoted.length - quotes.length)) else none

/-! ## The variables -/

/-- The shell variables that hold the parameters of a test. -/
inductive Param where
  | testname
  | groups
  | smp
  | kernel
  | testArgs
  | opts
  | arch
  | machine
  | check
  | accel
  | timeout
  | disabledIf
  deriving DecidableEq, Repr

/-- The contents of the shell variables. -/
abbrev Vars := Param → Text

/-- The defaults, which a header sets. -/
def default (env : Env) : Vars
  | .smp => optnameNrCpus env.target ++ " 1".toList
  | .opts => env.defaultOpts
  | _ => []

/-- The variables after a header. -/
def start (env : Env) (name : Text) : Vars := update (default env) .testname name

/-- What a line is to the reader. An assignment comes with the new contents of the variable. -/
inductive Statement where
  | header (name : Text)
  | assign (param : Param) (value : Text)
  | openBlock (first : Text)
  | other
  deriving DecidableEq, Repr

/-- The conditions of `for_each_unittest` for a line, in their order. -/
def classify (env : Env) (line : Text) : Statement :=
  if let some name := header line then .header name
  else if let some v := setting .file line then .assign .kernel (env.testDir ++ '/' :: v)
  else if let some v := setting .smp line then
    .assign .smp (optnameNrCpus env.target ++ ' ' :: v)
  else if let some v := setting .testArgs line then
    .assign .testArgs (optnameArgs env.target ++ ' ' :: v)
  else if let some first := opening env line then .openBlock first
  else if let some v := paramsSetting env line then .assign .opts (env.defaultOpts ++ ' ' :: v)
  else if let some v := setting .groups line then .assign .groups v
  else if let some v := setting .arch line then .assign .arch v
  else if let some v := setting .machine line then .assign .machine v
  else if let some v := setting .check line then .assign .check v
  else if let some v := setting .disabledIf line then .assign .disabledIf v
  else if let some v := setting .accel line then .assign .accel v
  else if let some v := setting .timeout line then .assign .timeout v
  else .other

/-! ## A value of several lines -/

/-- The options after the first line of a value of several lines. Inside of the double quotes of
the assignment `$'\n'` stands for itself and is no newline. -/
def openOpts (env : Env) (first : Text) : Text :=
  env.defaultOpts ++ ' ' :: (first ++ "$'\\n'".toList)

/-- A newline behind an odd number of backslashes is taken off, with the last of them. -/
def unescape (opts : Text) : Text :=
  if opts.getLast? = some '\n' then
    if (opts.dropLast.rtakeWhile (· == '\\')).length % 2 = 1 then opts.dropLast.dropLast else opts
  else opts

/-- The options after one more line inside of the value. -/
def appendLine (opts reply : Text) : Text := unescape opts ++ (reply ++ ['\n'])

/-- The options after the line that closes the value. -/
def appendLast (opts last : Text) : Text := unescape opts ++ last

/-! ## The calls -/

/-- A call of the command: the arguments behind its name. -/
abbrev Call := List Text

/-- A positional parameter of the command, counted from 0. Beyond the last argument it is empty. -/
def Call.positional (c : Call) (n : Nat) : Text := c.getD n []

/-- `${kernel%.elf}.pv.bin`. -/
def pvKernel (kernel : Text) : Text :=
  (if ".elf".toList.isSuffixOf kernel then kernel.take (kernel.length - 4) else kernel) ++
    ".pv.bin".toList

/-- `arch_cmd_s390x`: the test itself, and once more as a protected guest if there is an image. -/
def archCmdS390x (isFile : Text → Bool) (c : Call) : List Call :=
  let args := (List.range 11).map c.positional
  let kernel := pvKernel (c.positional 3)
  if c.positional 9 = "tcg".toList ∨ "migration".toList <:+: c.positional 1 then [args]
  else if isFile kernel then
    [args, ((args.set 0 (c.positional 0 ++ "_PV".toList)).set 1
      (c.positional 1 ++ " pv".toList)).set 3 kernel]
  else [args]

/-- `$(arch_cmd) "$cmd"` with its arguments. -/
def archCmd (env : Env) (c : Call) : List Call :=
  if env.s390x then archCmdS390x env.isFile c else [c]

/-- The arguments of the call at a header. -/
def arguments : List Param :=
  [.testname, .groups, .smp, .kernel, .testArgs, .opts, .arch, .machine, .check, .accel, .timeout,
    .disabledIf]

/-- The arguments of the call at the end of the file. -/
def lastArguments : List Param :=
  [.testname, .groups, .smp, .kernel, .testArgs, .opts, .arch, .machine, .check, .accel, .timeout]

/-- The call of the command for the test in the variables, if they hold one. -/
def invoke (env : Env) (args : List Param) (v : Vars) : List Call :=
  if v .testname ≠ [] then archCmd env (args.map v) else []

/-! ## The reader -/

mutual
/-- The loop of `for_each_unittest` over the lines, and the call behind it. -/
def readLines (env : Env) : Vars → List Text → List Call
  | v, [] => invoke env lastArguments v
  | v, line :: rest =>
    match classify env (strip line) with
    | .header name => invoke env arguments v ++ readLines env (start env name) rest
    | .assign param value => readLines env (update v param value) rest
    | .openBlock first => readBlock env (update v .opts (openOpts env first)) rest
    | .other => readLines env v rest
/-- The loop over the lines of a value. At the end of the file the outer loop has no line left
either. -/
def readBlock (env : Env) : Vars → List Text → List Call
  | v, [] => invoke env lastArguments v
  | v, reply :: rest =>
    match closing reply with
    | some last => readLines env (update v .opts (appendLast (v .opts) last)) rest
    | none => readBlock env (update v .opts (appendLine (v .opts) reply)) rest
end

end KvmUnitTests.UnittestsCfg
