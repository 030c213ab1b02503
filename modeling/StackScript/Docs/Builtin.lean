import StackScript.Docs.Registry

/-!
# Built-in Documentation

The documentation of the functions and filters that every script can use. Each
entry is written down line by line.

## Main definitions

* `builtinEntries`: The entries.
* `Registry.builtin`: The registry of them.
-/

namespace StackScript

namespace Docs

/-- The entry of a name whose documentation has the given lines. -/
def entryOfLines (name : String) (lines : List String) : DocEntry :=
  ⟨name, String.intercalate "\n" lines⟩

/-- The functions and filters that every script can use. -/
def builtinEntries : List DocEntry :=
  [entryOfLines "api.request"
     ["Send an HTTP request to an external service and capture the response.",
      "",
      "```xs",
      "api.request \x7b",
      "  url = \"https://example.com/items\"",
      "  method = \"GET\"",
      "\x7d as $response",
      "```",
      ""],
   entryOfLines "array.filter"
     ["Keep only the elements matching a condition.",
      "",
      "```xs",
      "array.filter ($users) if ($this.active) as $active",
      "```",
      ""],
   entryOfLines "array.find"
     ["Return the first element matching a condition, or null.",
      "",
      "```xs",
      "array.find ($users) if ($this.id == $input.id) as $user",
      "```",
      ""],
   entryOfLines "array.pop"
     ["Remove and return the last element of an array variable.",
      "",
      "```xs",
      "array.pop $items as $last",
      "```",
      ""],
   entryOfLines "array.push"
     ["Append a value to the end of an array variable.",
      "",
      "```xs",
      "array.push $items \x7b",
      "  value = $input.item",
      "\x7d",
      "```",
      ""],
   entryOfLines "conditional"
     ["Branch on one or more conditions with `if`, `elseif` and `else` blocks.",
      "",
      "```xs",
      "conditional \x7b",
      "  if ($input.count > 10) \x7b",
      "    var $size \x7b value = \"large\" \x7d",
      "  \x7d",
      "  else \x7b",
      "    var $size \x7b value = \"small\" \x7d",
      "  \x7d",
      "\x7d",
      "```",
      ""],
   entryOfLines "count"
     ["Filter: the number of elements in an array.",
      "",
      "```xs",
      "var $n \x7b value = $items|count \x7d",
      "```",
      ""],
   entryOfLines "db.add"
     ["Insert a new record into a table and return it.",
      "",
      "```xs",
      "db.add users \x7b",
      "  data = \x7bname: $input.name, email: $input.email\x7d",
      "\x7d as $user",
      "```",
      ""],
   entryOfLines "db.add_or_edit"
     ["Insert a record, or update it when a record with the field value already exists.",
      "",
      "```xs",
      "db.add_or_edit users \x7b",
      "  field_name = \"email\"",
      "  field_value = $input.email",
      "  data = \x7bemail: $input.email\x7d",
      "\x7d as $user",
      "```",
      ""],
   entryOfLines "db.bulk.add"
     ["Insert many records in a single operation.",
      "",
      "```xs",
      "db.bulk.add users \x7b",
      "  items = $input.rows",
      "\x7d as $created",
      "```",
      ""],
   entryOfLines "db.delete"
     ["Delete the record identified by a field value.",
      "",
      "```xs",
      "db.delete users \x7b",
      "  field_name = \"id\"",
      "  field_value = $input.user_id",
      "\x7d",
      "```",
      ""],
   entryOfLines "db.edit"
     ["Update the fields of an existing record identified by a field value.",
      "",
      "```xs",
      "db.edit users \x7b",
      "  field_name = \"id\"",
      "  field_value = $input.user_id",
      "  data = \x7bname: $input.name\x7d",
      "\x7d as $user",
      "```",
      ""],
   entryOfLines "db.get"
     ["Fetch a single record by field value, or null when nothing matches.",
      "",
      "```xs",
      "db.get users \x7b",
      "  field_name = \"id\"",
      "  field_value = $input.user_id",
      "\x7d as $user",
      "```",
      ""],
   entryOfLines "db.has"
     ["Check whether a record with the given field value exists.",
      "",
      "```xs",
      "db.has users \x7b",
      "  field_name = \"email\"",
      "  field_value = $input.email",
      "\x7d as $exists",
      "```",
      ""],
   entryOfLines "db.patch"
     ["Apply a partial update to a record, leaving unspecified fields untouched.",
      "",
      "```xs",
      "db.patch users \x7b",
      "  field_name = \"id\"",
      "  field_value = $input.user_id",
      "  data = $input.changes",
      "\x7d as $user",
      "```",
      ""],
   entryOfLines "db.query"
     ["Query records from a table with optional filtering, sorting and paging.",
      "",
      "```xs",
      "db.query users \x7b",
      "  where = $db.users.active == true",
      "  sort = \x7bcreated_at: \"desc\"\x7d",
      "  return = \x7btype: \"list\"\x7d",
      "\x7d as $users",
      "```",
      "",
      "The table name follows the call. " ++
        "Use `return` to choose between list, single, count and exists results.",
      ""],
   entryOfLines "db.transaction"
     ["Run the nested statements atomically; any failure rolls every change back.",
      "",
      "```xs",
      "db.transaction \x7b",
      "  stack \x7b",
      "    db.add orders \x7b data = $input.order \x7d as $order",
      "  \x7d",
      "\x7d",
      "```",
      ""],
   entryOfLines "debug.log"
     ["Write a value to the request debug log without changing the response.",
      "",
      "```xs",
      "debug.log \x7b",
      "  value = $user",
      "\x7d",
      "```",
      ""],
   entryOfLines "first"
     ["Filter: the first element of an array, or null when empty.",
      "",
      "```xs",
      "var $head \x7b value = $items|first \x7d",
      "```",
      ""],
   entryOfLines "foreach"
     ["Iterate over a list, binding each element with `each as`.",
      "",
      "```xs",
      "foreach ($input.items) \x7b",
      "  each as $item \x7b",
      "    debug.log \x7b value = $item \x7d",
      "  \x7d",
      "\x7d",
      "```",
      ""],
   entryOfLines "function.run"
     ["Call another workspace function by name and capture its response.",
      "",
      "```xs",
      "function.run \"Discord/GetMessageByID\" \x7b",
      "  input = \x7bmessage_id: $input.id\x7d",
      "\x7d as $message",
      "```",
      "",
      "Names may contain `/` to address functions inside folders.",
      ""],
   entryOfLines "json_decode"
     ["Filter: parse a JSON string into a value.",
      "",
      "```xs",
      "var $data \x7b value = $input.raw|json_decode \x7d",
      "```",
      ""],
   entryOfLines "json_encode"
     ["Filter: serialize a value to a JSON string.",
      "",
      "```xs",
      "var $payload \x7b value = $data|json_encode \x7d",
      "```",
      ""],
   entryOfLines "lower"
     ["Filter: alias of `to_lower` used in input declarations.",
      "",
      "```xs",
      "text email filters=trim|lower",
      "```",
      ""],
   entryOfLines "max"
     ["Filter: reject values above a maximum (numbers) or longer than a maximum length (text).",
      "",
      "```xs",
      "text title filters=max:120",
      "```",
      ""],
   entryOfLines "min"
     ["Filter: reject values below a minimum (numbers) or shorter than a minimum length (text).",
      "",
      "```xs",
      "int age filters=min:0",
      "```",
      ""],
   entryOfLines "precondition"
     ["Stop execution with an error when a condition does not hold.",
      "",
      "```xs",
      "precondition ($input.age >= 18) \x7b",
      "  error_type = \"accessdenied\"",
      "  error = \"Must be an adult\"",
      "\x7d",
      "```",
      ""],
   entryOfLines "return"
     ["Stop execution and respond with the given value.",
      "",
      "```xs",
      "return \x7b",
      "  value = $result",
      "\x7d",
      "```",
      ""],
   entryOfLines "throw"
     ["Raise a named error that callers can catch.",
      "",
      "```xs",
      "throw \x7b",
      "  name = \"NotFound\"",
      "  value = \"No such record\"",
      "\x7d",
      "```",
      ""],
   entryOfLines "to_lower"
     ["Filter: convert text to lower case.",
      "",
      "```xs",
      "var $email \x7b value = $input.email|to_lower \x7d",
      "```",
      ""],
   entryOfLines "to_upper"
     ["Filter: convert text to upper case.",
      "",
      "```xs",
      "var $code \x7b value = $input.code|to_upper \x7d",
      "```",
      ""],
   entryOfLines "trim"
     ["Filter: remove leading and trailing whitespace from text.",
      "",
      "```xs",
      "text name filters=trim",
      "```",
      ""],
   entryOfLines "try_catch"
     ["Run statements and handle any error in the `catch` block.",
      "",
      "```xs",
      "try_catch \x7b",
      "  try \x7b",
      "    function.run \"risky\" as $r",
      "  \x7d",
      "  catch \x7b",
      "    debug.log \x7b value = $error \x7d",
      "  \x7d",
      "\x7d",
      "```",
      ""],
   entryOfLines "util.sleep"
     ["Pause execution for the given number of seconds.",
      "",
      "```xs",
      "util.sleep \x7b",
      "  value = 1",
      "\x7d",
      "```",
      ""],
   entryOfLines "var"
     ["Declare a stack variable with an initial value.",
      "",
      "```xs",
      "var $total \x7b",
      "  value = 0",
      "\x7d",
      "```",
      ""],
   entryOfLines "var.update"
     ["Assign a new value to an existing stack variable.",
      "",
      "```xs",
      "var.update $total \x7b",
      "  value = $total + 1",
      "\x7d",
      "```",
      ""]]

end Docs

/-- The registry of the functions and filters that every script can use. -/
def Registry.builtin : Registry :=
  Registry.ofEntries Docs.builtinEntries

end StackScript
