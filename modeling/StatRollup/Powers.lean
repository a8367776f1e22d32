/-!
# Powers

Powers of numbers are the ones of the core library in every module, whatever else a module
imports: a bound such as `2 ^ 64` is the same term everywhere.
-/

attribute [instance (high)] instPowNat
attribute [default_instance 10001] instPowNat
