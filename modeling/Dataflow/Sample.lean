/-!
# Sample programs

Small programs, one function each, that together have every shape of control flow.
-/

set_option autoImplicit false

namespace Dataflow

/-- A named program text. -/
structure Sample where
  name : String
  source : String
deriving DecidableEq

namespace Sample

/-- Lines as a text in which every line is ended. -/
def lines (texts : List String) : String :=
  String.join (texts.map (· ++ "\n"))

/-- A branch on a constant condition. -/
def simpleIf : Sample where
  name := "simple_if"
  source := lines
    ["function main(a) \x7b",
     "    b = 0 - 5;",
     "    if (b > 0) \x7b",
     "        c = a + 2;",
     "    \x7d else \x7b",
     "        c = b * 2;",
     "    \x7d",
     "    return c;",
     "\x7d"]

/-- A branch that is never taken. -/
def unreachable : Sample where
  name := "unreachable"
  source := lines
    ["function main(b) \x7b",
     "    if (False) \x7b",
     "        c = 5;",
     "    \x7d else \x7b",
     "        c = 0;",
     "    \x7d",
     "    return b + c;",
     "\x7d"]

/-- A sum over a loop with an unknown bound. -/
def sum : Sample where
  name := "sum"
  source := lines
    ["function sum(n) \x7b",
     "    i = 0;",
     "    sum = 0;",
     "    while (i < n) \x7b",
     "        sum = sum + i;",
     "        i = i + 1;",
     "    \x7d",
     "    return sum;",
     "\x7d"]

/-- A branch inside a branch with an empty second body. -/
def nestedIf : Sample where
  name := "nested_if"
  source := lines
    ["function main() \x7b",
     "    y = 5;",
     "    if (b) \x7b",
     "        if (y > 0) \x7b",
     "            y = x - 2;",
     "        \x7d else \x7b",
     "            y = 2 + x;",
     "        \x7d",
     "    \x7d else \x7b\x7d",
     "    return y;",
     "\x7d"]

/-- A loop inside a loop, both with constant bounds. -/
def nestedWhile : Sample where
  name := "nested_while"
  source := lines
    ["function main() \x7b",
     "    sum = 0;",
     "    i = 0;",
     "    while (i < 5) \x7b",
     "        j = 0;",
     "        while (j < 5) \x7b",
     "            sum = sum + 1;",
     "            j = j + 1;",
     "        \x7d",
     "        i = i + 1;",
     "    \x7d",
     "    return sum;",
     "\x7d"]

/-- A branch inside a loop. -/
def ifInWhile : Sample where
  name := "if_in_while"
  source := lines
    ["function main() \x7b",
     "    y = 5 * 2;",
     "    while (x > 0) \x7b",
     "        if (b) \x7b",
     "            y = x - 2;",
     "        \x7d else \x7b",
     "            y = x + 2;",
     "        \x7d",
     "    \x7d",
     "    return y;",
     "\x7d"]

/-- Loops inside branches inside branches. -/
def nestedBranches : Sample where
  name := "complex"
  source := lines
    ["function main() \x7b",
     "    y = 5;",
     "    if (b) \x7b",
     "        if (y > 0) \x7b",
     "            y = x - 2;",
     "            x = 2;",
     "            while (y > 0) \x7b",
     "                y = x - 2;",
     "                y = 2 + x;",
     "            \x7d",
     "            y = 5;",
     "        \x7d else \x7b",
     "            y = 2 + x;",
     "            while (y > 0) \x7b",
     "                y = x - 2;",
     "                y = 2 + x;",
     "            \x7d",
     "        \x7d",
     "    \x7d else \x7b",
     "        if (y > 0) \x7b",
     "            y = x - 2;",
     "            x = 5;",
     "            x = 6;",
     "            while (y > 0) \x7b",
     "                y = x - 2;",
     "                y = 2 + x;",
     "            \x7d",
     "            x = 2;",
     "        \x7d else \x7b",
     "            y = 2 + x;",
     "        \x7d",
     "    \x7d",
     "    if (y > 0) \x7b",
     "        while (y > 0) \x7b",
     "            y = x - 2;",
     "            y = 2 + x;",
     "        \x7d",
     "        y = x - 2;",
     "    \x7d else \x7b",
     "        while (y > 0) \x7b",
     "            y = x - 2;",
     "            y = 2 + x;",
     "            while (y > 0) \x7b",
     "                y = x - 2;",
     "                y = 2 + x;",
     "            \x7d",
     "        \x7d",
     "        y = 2 + x;",
     "    \x7d",
     "    return y;",
     "\x7d"]

/-- A product over a loop. -/
def factorial : Sample where
  name := "fac"
  source := lines
    ["function fac(n) \x7b",
     "    i = 0;",
     "    f = 1;",
     "    while (i < n) \x7b",
     "        i = i + 1;",
     "        f = f * i;",
     "    \x7d",
     "    return f;",
     "\x7d"]

/-- Every sample. -/
def all : List Sample :=
  [simpleIf, unreachable, sum, nestedIf, nestedWhile, ifInWhile, nestedBranches, factorial]

/-- The sample with a given name. -/
def find? (name : String) : Option Sample :=
  all.find? (·.name == name)

end Sample

end Dataflow
