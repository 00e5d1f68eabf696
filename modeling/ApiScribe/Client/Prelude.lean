/-!
# What all clients share

Every client class begins with the same members: the address of the service and the function that
sends requests, a constructor for them, and the method `request`, through which the generated
methods send their requests.
-/

namespace ApiScribe.Client

/-- The members that every client class begins with, line by line. -/
def preludeLines : List String :=
  [ "  private readonly baseUrl: string;",
    "  private readonly fetchImpl: typeof fetch;",
    "",
    "  constructor(baseUrl: string, fetchImpl: typeof fetch = globalThis.fetch.bind(globalThis)) \x7b",
    "    this.baseUrl = baseUrl.replace(/\\/+$/, '');",
    "    this.fetchImpl = fetchImpl;",
    "  \x7d",
    "",
    "  protected async request<T>(",
    "    method: string,",
    "    path: string,",
    "    options: \x7b query?: object; body?: unknown \x7d = \x7b\x7d,",
    "  ): Promise<T> \x7b",
    "    const url = new URL(this.baseUrl + path);",
    "    for (const [key, value] of Object.entries(options.query ?? \x7b\x7d)) \x7b",
    "      if (value === undefined || value === null) \x7b",
    "        continue;",
    "      \x7d",
    "      for (const item of Array.isArray(value) ? value : [value]) \x7b",
    "        url.searchParams.append(key, String(item));",
    "      \x7d",
    "    \x7d",
    "",
    "    const headers: Record<string, string> = \x7b Accept: 'application/json' \x7d;",
    "    let body: string | undefined;",
    "    if (options.body !== undefined) \x7b",
    "      headers['Content-Type'] = 'application/json';",
    "      body = JSON.stringify(options.body);",
    "    \x7d",
    "",
    "    const response = await this.fetchImpl(url.toString(), \x7b method, headers, body \x7d);",
    "    if (!response.ok) \x7b",
    "      throw new Error(`$\x7bmethod\x7d $\x7bpath\x7d failed with status $\x7bresponse.status\x7d`);",
    "    \x7d",
    "    if (response.status === 204) \x7b",
    "      return undefined as T;",
    "    \x7d",
    "    const text = await response.text();",
    "    return (text ? JSON.parse(text) : undefined) as T;",
    "  \x7d"]

/-- The members that every client class begins with. -/
def prelude : String :=
  String.join (preludeLines.map fun line => line ++ "\n")

/-- The names of these members. -/
def preludeMembers : List String :=
  ["baseUrl", "fetchImpl", "constructor", "request"]

end ApiScribe.Client
