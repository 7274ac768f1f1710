/-!
# Configuration

* `Config`         how many random draws an operation may reject;
* `Config.Call`    a change to a configuration, and `Config.build` for several in a row.
-/

namespace CurveEngine

structure Config where
  /-- how many random draws an operation may reject, `none` for any number -/
  retryLimit : Option Nat := none
  deriving DecidableEq

namespace Config

inductive Call where
  | retryLimit (n : Nat)
  | unboundedRetries
  deriving DecidableEq

def apply (c : Config) : Call → Config
  | .retryLimit n => { c with retryLimit := some n }
  | .unboundedRetries => { c with retryLimit := none }

/-- the configuration that some changes make out of the default -/
def build (calls : List Call) : Config := calls.foldl apply {}

def isDefault (c : Config) : Bool := c = {}

end Config
end CurveEngine
