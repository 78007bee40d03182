import OperationHooks.Template.Syntax

set_option autoImplicit false

namespace OperationHooks.Template.BuiltIn

def operation : Node := .print (.variable "operation_name")
def selection : Node := .print (.variable "selection_name")

def queryPlain : Template := [
  .text "import \x7b useCallback \x7d from 'react';\n",
  .text "import \x7b useQuery, useLazyQuery, useApolloClient, QueryOptions, QueryHookOptions, ",
  .text "LazyQueryHookOptions \x7d from '@apollo/client';\n",
  .text "import \x7b useSnackbarHelper \x7d from '../../useSnackbarHelper';\n",
  .text "import QUERY from '../operations/",
  operation,
  .text ".graphql';\n",
  .text "import \x7b Query \x7d from '../../__generated__/globalTypes';\n",
  .text "\n",
  .text "export const use",
  operation,
  .text "Query = (options?: QueryHookOptions<Query>) => \x7b\n",
  .text "  const \x7b t, enqueueSnackbar \x7d = useSnackbarHelper();\n",
  .text "  const result = useQuery<Query>(QUERY, \x7b\n",
  .text "    onError: error => \x7b\n",
  .text "      enqueueSnackbar(t(error.message), \x7b variant: 'error' \x7d);\n",
  .text "    \x7d,\n",
  .text "    ...options\n",
  .text "  \x7d);\n",
  .text "\n",
  .text "  return result;\n",
  .text "\x7d;\n",
  .text "\n",
  .text "export const use",
  operation,
  .text "LazyQuery = (options?: LazyQueryHookOptions<Query>) => \x7b\n",
  .text "  const \x7b t, enqueueSnackbar \x7d = useSnackbarHelper();\n",
  .text "  const [get",
  operation,
  .text "Query, result] = useLazyQuery<Query>(QUERY, \x7b\n",
  .text "    onError: error => \x7b\n",
  .text "      enqueueSnackbar(t(error.message), \x7b variant: 'error' \x7d);\n",
  .text "    \x7d,\n",
  .text "    ...options\n",
  .text "  \x7d);\n",
  .text "\n",
  .text "  return \x7b get",
  operation,
  .text "Query, ...result \x7d;\n",
  .text "\x7d;\n",
  .text "\n",
  .text "export const use",
  operation,
  .text "PromiseQuery = () => \x7b\n",
  .text "  const client = useApolloClient();\n",
  .text "\n",
  .text "  const get",
  operation,
  .text " = useCallback(\n",
  .text "    (options?: Omit<QueryOptions<Record<string, unknown>, Query>, 'query'>) =>\n",
  .text "      client.query<Query>(\x7b ...options, query: QUERY \x7d),\n",
  .text "    [client]\n",
  .text "  );\n",
  .text "\n",
  .text "  return \x7b get",
  operation,
  .text " \x7d;\n",
  .text "\x7d;\n"]

def queryWithVariables : Template := [
  .text "import \x7b useCallback \x7d from 'react';\n",
  .text "import \x7b useQuery, useLazyQuery, useApolloClient, QueryOptions, QueryHookOptions, ",
  .text "LazyQueryHookOptions \x7d from '@apollo/client';\n",
  .text "import \x7b useSnackbarHelper \x7d from '../../useSnackbarHelper';\n",
  .text "import QUERY from '../operations/",
  operation,
  .text ".graphql';\n",
  .text "import \x7b Query, Query",
  selection,
  .text "Args \x7d from '../../__generated__/globalTypes';\n",
  .text "\n",
  .text "export const use",
  operation,
  .text "Query = (options?: QueryHookOptions<Query, Query",
  selection,
  .text "Args>) => \x7b\n",
  .text "  const \x7b t, enqueueSnackbar \x7d = useSnackbarHelper();\n",
  .text "  const result = useQuery<Query, Query",
  selection,
  .text "Args>(QUERY, \x7b\n",
  .text "    onError: error => \x7b\n",
  .text "      enqueueSnackbar(t(error.message), \x7b variant: 'error' \x7d);\n",
  .text "    \x7d,\n",
  .text "    ...options\n",
  .text "  \x7d);\n",
  .text "\n",
  .text "  return result;\n",
  .text "\x7d;\n",
  .text "\n",
  .text "export const use",
  operation,
  .text "LazyQuery = (\n",
  .text "  options?: LazyQueryHookOptions<Query, Query",
  selection,
  .text "Args>\n",
  .text ") => \x7b\n",
  .text "  const \x7b t, enqueueSnackbar \x7d = useSnackbarHelper();\n",
  .text "  const [get",
  operation,
  .text ", result] = useLazyQuery<Query, Query",
  selection,
  .text "Args>(QUERY, \x7b\n",
  .text "    onError: error => \x7b\n",
  .text "      enqueueSnackbar(t(error.message), \x7b variant: 'error' \x7d);\n",
  .text "    \x7d,\n",
  .text "    ...options\n",
  .text "  \x7d);\n",
  .text "\n",
  .text "  return \x7b get",
  operation,
  .text ", ...result \x7d;\n",
  .text "\x7d;\n",
  .text "\n",
  .text "export const use",
  operation,
  .text "PromiseQuery = () => \x7b\n",
  .text "  const client = useApolloClient();\n",
  .text "\n",
  .text "  const get",
  operation,
  .text " = useCallback(\n",
  .text "    (options?: Omit<QueryOptions<Query",
  selection,
  .text "Args, Query>, 'query'>) =>\n",
  .text "      client.query<Query, Query",
  selection,
  .text "Args>(\x7b ...options, query: QUERY \x7d),\n",
  .text "    [client]\n",
  .text "  );\n",
  .text "\n",
  .text "  return \x7b get",
  operation,
  .text " \x7d;\n",
  .text "\x7d;\n"]

/-- The hook of a mutation without variables. -/
def mutationPlain : Template := [
  .text "import \x7b useMutation, MutationHookOptions \x7d from '@apollo/client';\n",
  .text "import MUTATION from '../operations/",
  operation,
  .text ".graphql';\n",
  .text "import \x7b Mutation \x7d from '../../__generated__/globalTypes';\n",
  .text "\n",
  .text "export const use",
  operation,
  .text "Mutation = (options?: MutationHookOptions<Mutation>) => \x7b\n",
  .text "  const [call",
  operation,
  .text ", result] = useMutation<Mutation>(MUTATION, options);\n",
  .text "\n",
  .text "  return \x7b call",
  operation,
  .text ", ...result \x7d;\n",
  .text "\x7d;\n",
  .text "\n",
  .text "export type ",
  operation,
  .text "MutationFunction = Mutation['",
  selection,
  .text "'];\n"]

def mutationWithVariables : Template := [
  .text "import \x7b useMutation, MutationHookOptions \x7d from '@apollo/client';\n",
  .text "import MUTATION from '../operations/",
  operation,
  .text ".graphql';\n",
  .text "import \x7b Mutation, Mutation",
  selection,
  .text "Args \x7d from '../../__generated__/globalTypes';\n",
  .text "\n",
  .text "export const use",
  operation,
  .text "Mutation = (options?: MutationHookOptions<Mutation, Mutation",
  selection,
  .text "Args>) => \x7b\n",
  .text "  const [call",
  operation,
  .text ", result] = useMutation<Mutation, Mutation",
  selection,
  .text "Args>(MUTATION, options);\n",
  .text "\n",
  .text "  return \x7b call",
  operation,
  .text ", ...result \x7d;\n",
  .text "\x7d;\n",
  .text "\n",
  .text "export type ",
  operation,
  .text "MutationFunction = Mutation['",
  selection,
  .text "'];\n"]

def all : List (String × Template) := [
  ("query.j2", queryPlain),
  ("query_variables.j2", queryWithVariables),
  ("mutation.j2", mutationPlain),
  ("mutation_variables.j2", mutationWithVariables)]

end OperationHooks.Template.BuiltIn
