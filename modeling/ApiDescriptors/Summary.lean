import ApiDescriptors.Registry

/-!
The summary of a registry: a line for each endpoint, each standalone handler and each serializer.
-/

namespace ApiDescriptors.Summary

def endpoint (e : Endpoint) : String :=
  "endpoint   " ++ e.className ++ " " ++ e.path ++ " [" ++ ", ".intercalate (e.verbs.map (·.method.text)) ++ "]\n"

def handler (h : Handler) : String :=
  "standalone " ++ h.verb.functionName ++ " " ++ h.verb.method.text ++ " " ++ h.path ++ "\n"

def serializer (s : Serializer) : String :=
  "serializer " ++ s.className ++ " " ++ s.schema.text ++ " (" ++ Number.decimal s.fields.length ++ " fields)\n"

def ofRegistry (g : Registry) : String :=
  String.join <| g.endpoints.map endpoint ++ g.handlers.map handler ++ g.serializers.map serializer

end ApiDescriptors.Summary
