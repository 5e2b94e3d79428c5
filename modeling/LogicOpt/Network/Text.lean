import LogicOpt.Network.Order

namespace LogicOpt

namespace Network

def inputText (net : Network) (n : Nat) : String :=
  (net.inputName? n).getD "?" ++ ": " ++ nodeText n

def gateLine (net : Network) (n : Nat) : Option String :=
  (net.gate? n).map fun g =>
    "  " ++ nodeText n ++ " = " ++ g.kind.text ++ "("
      ++ String.intercalate ", " (g.operands.map Signal.text) ++ ")\n"

def outputLine (o : Output) : String := "  " ++ o.name ++ " = " ++ o.signal.text ++ "\n"

def text (net : Network) : String :=
  "network " ++ net.name ++ "(" ++ String.intercalate ", " (net.inputs.map net.inputText)
    ++ ") \x7b\n"
    ++ String.join (net.topoOrder.filterMap net.gateLine)
    ++ String.join (net.outputs.map outputLine)
    ++ "\x7d"

end Network

end LogicOpt
