import StoreBench.Machine
/-!
# The machine of the commands

The commands count on the memory of a common machine, and on threads that take two of the 65530
memory regions of a process each.
-/

namespace StoreBench.CommandLine

instance machine : Machine where
  memory := (1 <<< 35) - 1
  threads := 65530 / 2

end StoreBench.CommandLine
